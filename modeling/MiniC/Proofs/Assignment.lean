import MiniC.Proofs.Store

/-!
# Assignment and lookup

Assignment and lookup are the two halves of a lens on the store. A name is assigned to where it
is looked up, in the nearest frame of the scope that binds it, and nothing else of the state
changes: not the bindings that this one shadows, nor those that a call hides
(`assignment_lens`). That holds for any shape of the scope and of the chain; the frame may be on
the chain several times.
-/

namespace MiniC

/-! ## Updates of bindings -/

namespace Bindings
variable {b b' : Bindings}

theorem update_update (b : Bindings) (f g : Binding → Binding) (name : String) :
    (b.update f name).update g name = b.update (g ∘ f) name := by
  induction b with
  | nil => rfl
  | cons head rest ih =>
    obtain ⟨key, binding⟩ := head
    by_cases here : key = name
    · simp [update, here]
    · simp [update, here, ih]

/-- A binding that stays as it is leaves the others too. -/
theorem update_eq_self {f : Binding → Binding} {name : String} (same : ∀ old, b.get? name = some old → f old = old) :
    b.update f name = b := by
  induction b with
  | nil => rfl
  | cons head rest ih =>
    obtain ⟨key, binding⟩ := head
    by_cases here : key = name
    · subst here
      simp [update, same binding (by simp [get?])]
    · have other : (name == key) = false := beq_false_of_ne (Ne.symm here)
      simp [update, here, ih fun old bound => same old (by simpa [get?, List.lookup_cons, other] using bound)]

theorem contains_congr (names : b'.map (·.1) = b.map (·.1)) (name : String) : b'.contains name = b.contains name := by
  have any (b : Bindings) : b.contains name = (b.map (·.1)).any (· == name) := by simp [contains]; rfl
  rw [any, any, names]

end Bindings

namespace State
variable {s s' : State} {r : FrameRef} {name : String} {v : Value}

/-! ## Changes of one frame -/

/-- Only a frame that exists binds names. -/
theorem frame_modifyBindings_self (binds : (s.frame r).bindings ≠ []) (f : Bindings → Bindings) :
    (s.modifyBindings r f).frame r = { s.frame r with bindings := f (s.frame r).bindings } := by
  cases r with
  | numbered n =>
    rw [frame_modifyBindings, if_pos]
    refine ⟨rfl, ?_⟩
    by_contra outside
    exact binds (by rw [frame_outside (Nat.le_of_not_lt outside)]; rfl)
  | detached n =>
    rw [frame_modifyDetached, if_pos]
    refine ⟨rfl, ?_⟩
    by_contra outside
    exact binds (by simp [frame, Array.getD_eq_getD_getElem?, outside]; rfl)

theorem modifyBindings_modifyBindings (s : State) (r : FrameRef) (f g : Bindings → Bindings) :
    (s.modifyBindings r f).modifyBindings r g = s.modifyBindings r (g ∘ f) := by
  have twice (frames : Array Frame) (n : Nat) :
      (frames.modify n fun frame => { frame with bindings := f frame.bindings }).modify n
          (fun frame => { frame with bindings := g frame.bindings }) =
        frames.modify n fun frame => { frame with bindings := g (f frame.bindings) } := by
    ext i small small'
    · simp
    · simp only [Array.getElem_modify]
      by_cases here : n = i
      · simp [here]
      · simp [here]
  cases r with
  | numbered n => simp [modifyBindings, twice]
  | detached n => simp [modifyBindings, twice]

theorem modifyBindings_eq_self {f : Bindings → Bindings} (same : f (s.frame r).bindings = (s.frame r).bindings) :
    s.modifyBindings r f = s := by
  have kept (frames : Array Frame) (n : Nat) (same : f (frames.getD n default).bindings = (frames.getD n default).bindings) :
      frames.modify n (fun frame => { frame with bindings := f frame.bindings }) = frames := by
    ext i small small'
    · simp
    · rw [Array.getElem_modify]
      by_cases here : n = i
      · subst here
        have same : f frames[n].bindings = frames[n].bindings := by
          simpa [Array.getD_eq_getD_getElem?, small'] using same
        simp [same]
      · simp [here]
  cases r with
  | numbered n => simp [modifyBindings, kept _ _ same]
  | detached n => simp [modifyBindings, kept _ _ same]

/-! ## What an assignment changes -/

/-- A state differs from another in the value of one name in one frame. -/
structure Reassigned (s s' : State) (r : FrameRef) (name : String) (v : Value) : Prop where
  value : ∃ old, s.get? r name = some old ∧ s'.get? r name = some { old with value := v }
  names (q : FrameRef) : (s'.frame q).bindings.map (·.1) = (s.frame q).bindings.map (·.1)
  bindings (q : FrameRef) (x : String) : ¬ (q = r ∧ x = name) → s'.get? q x = s.get? q x
  frames (q : FrameRef) : q ≠ r → s'.frame q = s.frame q
  places (q : FrameRef) : (s'.frame q).tag = (s.frame q).tag ∧ (s'.frame q).around = (s.frame q).around
  sizes : s'.frames.size = s.frames.size ∧ s'.detached.size = s.detached.size
  rest : { s' with frames := s.frames, detached := s.detached } = s

namespace Reassigned

theorem of_update (bound : (s.get? r name).isSome) (v : Value) :
    s.Reassigned (s.modifyBindings r (·.update ({ · with value := v }) name)) r name v := by
  obtain ⟨old, found⟩ := Option.isSome_iff_exists.mp bound
  have binds : (s.frame r).bindings ≠ [] := by
    intro empty
    rw [get?, empty] at found
    cases found
  have here := frame_modifyBindings_self binds (·.update ({ · with value := v }) name)
  refine ⟨⟨old, found, ?_⟩, fun q => ?_, fun q x other => ?_, fun q apart => frame_modifyBindings_of_ne apart _,
    fun q => ?_, ⟨s.frames_modifyBindings _ _, s.detached_modifyBindings _ _⟩, ?_⟩
  · rw [get?, here, Bindings.get?_update, if_pos rfl, ← get?, found]
    rfl
  · by_cases same : q = r
    · rw [same, here, Bindings.names_update]
    · rw [frame_modifyBindings_of_ne same]
  · by_cases same : q = r
    · rw [same, get?, here, Bindings.get?_update, if_neg fun named => other ⟨same, named⟩, ← get?]
    · rw [get?, frame_modifyBindings_of_ne same, ← get?]
  · by_cases same : q = r
    · rw [same, here]
      exact ⟨rfl, rfl⟩
    · rw [frame_modifyBindings_of_ne same]
      exact ⟨rfl, rfl⟩
  · cases r <;> rfl

theorem scope (h : s.Reassigned s' r name v) : s'.scope = s.scope := by
  have top : s'.top = s.top := by rw [← h.rest]; rfl
  rw [State.scope, State.scope, top, (h.places s.top).2]

/-- Every name is found where it was found before. -/
theorem lookupFrame (h : s.Reassigned s' r name v) (x : String) : s'.lookupFrame? x = s.lookupFrame? x := by
  have contains (q : FrameRef) : (s'.frame q).bindings.contains x = (s.frame q).bindings.contains x :=
    Bindings.contains_congr (h.names q) x
  rw [lookupFrame?, lookupFrame?, h.scope]
  simp only [contains]

end Reassigned

/-- What a name is looked up to is bound to it in the frame where it is found. -/
theorem lookup_eq_of_found {span : Option Span} {b : Binding} (found : s.lookupFrame? name = some r)
    (bound : s.get? r name = some b) : s.lookup name span = .ok b := by
  have both : (s.lookupFrame? name >>= fun r => (s.frame r).bindings.get? name) = some b := by
    rw [found]
    exact bound
  rw [lookup, both]

/-- A frame in which a name is found binds it. -/
theorem get?_of_found (found : s.lookupFrame? name = some r) : ∃ b, s.get? r name = some b := by
  refine Option.isSome_iff_exists.mp ?_
  rw [get?, Bindings.get?_isSome]
  exact List.find?_some (p := fun r => (s.frame r).bindings.contains name) found

/-- The frame in which a name is found is the first one of the scope that binds it. -/
theorem first_of_found (found : s.lookupFrame? name = some r) :
    ∃ inner outer, s.scope = inner ++ r :: outer ∧ ∀ q ∈ inner, s.get? q name = none := by
  obtain ⟨-, inner, outer, split, before⟩ := List.find?_eq_some_iff_append.mp found
  refine ⟨inner, outer, split, fun q member => ?_⟩
  rw [← Option.not_isSome_iff_eq_none, get?, Bindings.get?_isSome]
  simpa using before q member

/-! ## Stores -/

theorem reassigned_store (found : s.lookupFrame? name = some r) (v : Value) : s.Reassigned (s.store name v) r name v := by
  obtain ⟨b, bound⟩ := get?_of_found found
  unfold store
  rw [found]
  exact .of_update (Option.isSome_iff_exists.mpr ⟨b, bound⟩) v

theorem lookupFrame_store (s : State) (name x : String) (v : Value) : (s.store name v).lookupFrame? x = s.lookupFrame? x := by
  cases found : s.lookupFrame? name with
  | none => rw [store, found]
  | some r => exact (reassigned_store found v).lookupFrame x

/-- The last store of a name is what counts. -/
theorem store_store (s : State) (name : String) (v w : Value) : (s.store name v).store name w = s.store name w := by
  have found := s.lookupFrame_store name name v
  cases here : s.lookupFrame? name with
  | none =>
    have kept : s.store name v = s := by rw [store, here]
    rw [kept]
  | some r =>
    have once (w : Value) : s.store name w = s.modifyBindings r (·.update ({ · with value := w }) name) := by rw [store, here]
    rw [store, found, here, once, once]
    refine (s.modifyBindings_modifyBindings r _ _).trans (congrArg _ (funext fun b => ?_))
    exact b.update_update _ _ name

/-- A name that is assigned its own value changes nothing. -/
theorem store_lookup {span : Option Span} {b : Binding} (found : s.lookup name span = .ok b) : s.store name b.value = s := by
  obtain ⟨r, located, bound⟩ := lookupFrame_of_lookup found
  rw [store, located]
  refine modifyBindings_eq_self (Bindings.update_eq_self fun old here => ?_)
  rw [get?, here] at bound
  cases bound
  rfl

/-- A frame is in the scope once, where operations have led to the state. -/
theorem not_mem_outer_of_reaches (reaches : Reaches {} s) {inner outer : List FrameRef}
    (split : s.scope = inner ++ r :: outer) : r ∉ outer := by
  -- frames of a scope are told apart by their numbers, which go down outwards
  have h := ordered_of_reaches .empty reaches
  obtain ⟨n, made, top⟩ := h.top_made
  have older := (h.scopeOf_older n made).2
  rw [← top, show s.scopeOf s.top = s.scope from rfl, split, List.pairwise_append] at older
  intro again
  exact absurd ((List.pairwise_cons.mp older.2.1).1 r again) (Nat.lt_irrefl _)

end State

/-! ## Assignments -/

namespace Operation

theorem result_assign (s : State) (name : String) (v : Value) (span : Option Span) : (assign name v span).result s =
    if (s.lookupFrame? name).isSome then .ok () else .error (.error (.undefinedVariable name span)) := by
  unfold result
  rw [runOn_act, fault?, State.assignFault?]
  cases s.lookupFrame? name <;> rfl

theorem after_assign (s : State) (name : String) (v : Value) (span : Option Span) :
    (assign name v span).after s = s.store name v := by
  rw [after_eq, fault?, State.assignFault?]
  cases found : s.lookupFrame? name with
  | none => simp [State.store, found]
  | some r => simp [change]

end Operation

/-- In whatever state, a name can be assigned to if it can be looked up, and only then. If it can,
    the assignment goes to the first frame of the scope that binds the name. Lookup gives the new
    value afterwards, under the kind that the name had. No frame gains or loses a name, and any
    other binding of any frame stays as it is; the rest of the state does too. Where operations
    have led to the state, the frames further out, whose bindings of the name are shadowed, are
    other ones. Of two assignments only the second matters, and a name that is assigned the value
    it has changes nothing. If the name cannot be looked up, the assignment ends with the error
    that lookup gives, and the state is as before. -/
theorem assignment_lens (s : State) (name : String) (v : Value) (span : Option Span) :
    ((Operation.assign name v span).result s = .ok () ↔ ∃ b, s.lookup name span = .ok b) ∧
    (∀ b, s.lookup name span = .ok b →
      (∃ r inner outer, s.scope = inner ++ r :: outer ∧ (∀ q ∈ inner, s.get? q name = none) ∧
        s.Reassigned ((Operation.assign name v span).after s) r name v ∧
        (State.Reaches {} s → ∀ q ∈ outer, ((Operation.assign name v span).after s).frame q = s.frame q)) ∧
      ((Operation.assign name v span).after s).lookup name span = .ok { b with value := v } ∧
      (Operation.assign name b.value span).after s = s) ∧
    (∀ w span', (Operation.assign name w span').result ((Operation.assign name v span).after s) =
        (Operation.assign name w span').result s ∧
      (Operation.assign name w span').after ((Operation.assign name v span).after s) =
        (Operation.assign name w span').after s) ∧
    (∀ i, (Operation.assign name v span).result s = .error i →
      s.lookup name span = .error (.undefinedVariable name span) ∧ i = .error (.undefinedVariable name span) ∧
      (Operation.assign name v span).after s = s) := by
  simp only [Operation.result_assign, Operation.after_assign]
  refine ⟨?_, fun b looked => ?_, fun w span' => ⟨?_, s.store_store name v w⟩, fun i => ?_⟩
  · cases found : s.lookupFrame? name with
    | none => simp [State.lookup, found]
    | some r =>
      obtain ⟨b, bound⟩ := State.get?_of_found found
      simp [State.lookup_eq_of_found found bound]
  · obtain ⟨r, found, bound⟩ := State.lookupFrame_of_lookup looked
    have changed := State.reassigned_store found v
    obtain ⟨inner, outer, split, before⟩ := State.first_of_found found
    refine ⟨⟨r, inner, outer, split, before, changed, fun reaches q outside => changed.frames q ?_⟩, ?_,
      State.store_lookup looked⟩
    · rintro rfl
      exact State.not_mem_outer_of_reaches reaches split outside
    · obtain ⟨old, was, now⟩ := changed.value
      rw [bound] at was
      cases was
      exact State.lookup_eq_of_found ((changed.lookupFrame name).trans found) now
  · rw [s.lookupFrame_store]
  · cases found : s.lookupFrame? name with
    | none =>
      intro failed
      cases failed
      simp [State.lookup, State.store, found]
    | some r =>
      intro failed
      cases failed

/-- A name is bound in the global frame, in the frame of a call, and in a block from before the
    call, which is on the chain twice. It is assigned to in the block. -/
theorem assignment_lens_shadowed : ∃ s : State, State.Reaches {} s ∧
    s.chain = [.numbered 1, .numbered 2, .numbered 1, .global] ∧
    ((Operation.assign "x" (.bool true) none).after s).get? (.numbered 1) "x" = some ⟨.plain .bool, .bool true⟩ ∧
    ((Operation.assign "x" (.bool true) none).after s).get? .global "x" = s.get? .global "x" ∧
    ((Operation.assign "x" (.bool true) none).after s).get? (.numbered 2) "x" = s.get? (.numbered 2) "x" ∧
    (s.get? .global "x").isSome ∧ (s.get? (.numbered 2) "x").isSome := by
  have outermost : State.Reaches {} _ := .single ⟨.declareGlobal "x" (.plain .bool) (.bool false) none, trivial, rfl⟩
  have block := (outermost.tail ⟨.push .block, trivial, rfl⟩).tail
    ⟨.declare "x" (.plain .bool) (.bool false) none, trivial, rfl⟩
  have call := (block.tail ⟨.pushInside (.call "f") 0, Nat.two_pos, rfl⟩).tail
    ⟨.declare "x" (.plain .bool) (.bool false) none, trivial, rfl⟩
  have again := call.tail ⟨.reenter 1, show 1 < 3 by decide, rfl⟩
  have lens {s : State} (_ : State.Reaches {} s) := assignment_lens s "x" (.bool true) none
  obtain ⟨-, assigned, -, -⟩ := lens again
  obtain ⟨⟨r, inner, outer, split, before, changed, -⟩, -, -⟩ := assigned ⟨.plain .bool, .bool false⟩ rfl
  have here : r = .numbered 1 := by
    cases inner with
    | nil => exact (List.cons.inj split).1.symm
    | cons q rest =>
      have first := before q List.mem_cons_self
      rw [← (List.cons.inj split).1] at first
      cases first
  subst here
  exact ⟨_, again, rfl, rfl, changed.bindings .global "x" (by decide), changed.bindings (.numbered 2) "x" (by decide), rfl, rfl⟩

end MiniC
