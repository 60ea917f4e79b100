import MiniC.Snapshot
import MiniC.Proofs.Runs

/-!
# What a snapshot shows of a name

Names are looked up in the scope of the frame on top, and a snapshot has all frames of
the chain. It shows a name as the innermost frame of the chain has it (`binding?_capture`).
Since the scope is part of the chain this is what the name means, unless a frame that
is hidden from the scope comes first (`binding?_agrees`).
-/

namespace MiniC

namespace State

/-- Whether a frame binds a name. -/
def binds (s : State) (name : String) (r : FrameRef) : Bool := (s.frame r).bindings.contains name

/-- The innermost frame of the chain that binds a name. -/
def nearest? (s : State) (name : String) : Option FrameRef := s.chain.find? (s.binds name)

/-- How the binding of a name is shown. -/
def viewOf (s : State) (name : String) (b : Binding) : BindingView := ⟨name, b.kind, s.memory.show? b.value⟩

/-- How a frame shows a name. -/
def shows? (s : State) (name : String) (r : FrameRef) : Option BindingView :=
  ((s.frame r).bindings.get? name).map (s.viewOf name)

end State

/-! ## Names in frames -/

/-- Sorting by name leaves the first item of a name the first. -/
theorem find?_mergeSort_name (views : List BindingView) (name : String) :
    (views.mergeSort (·.name ≤ ·.name)).find? (·.name == name) = views.find? (·.name == name) := by
  have sorted : (views.filter (·.name == name)).Pairwise fun a b => decide (a.name ≤ b.name) = true := by
    refine List.pairwise_of_forall_mem_list fun a ha b hb => ?_
    rw [LawfulBEq.eq_of_beq (List.mem_filter.mp ha).2, LawfulBEq.eq_of_beq (List.mem_filter.mp hb).2]
    exact decide_eq_true (String.le_refl name)
  -- sorting is stable: what is sorted already stays in its order
  have kept : (views.filter (·.name == name)).Sublist (views.mergeSort (·.name ≤ ·.name)) := by
    refine List.sublist_mergeSort (fun a b c ab bc => ?_) (fun a b => ?_) sorted List.filter_sublist
    · exact decide_eq_true (String.le_trans (of_decide_eq_true ab) (of_decide_eq_true bc))
    · rw [Bool.or_eq_true, decide_eq_true_eq, decide_eq_true_eq]
      exact String.le_total a.name b.name
  have filtered := kept.filter (·.name == name)
  rw [List.filter_filter] at filtered
  simp only [Bool.and_self] at filtered
  rw [← List.head?_filter, ← List.head?_filter]
  exact congrArg List.head? (filtered.eq_of_length ((List.mergeSort_perm views _).filter _).length_eq.symm).symm

namespace Bindings

/-- The first item of a name is what the name is bound to. -/
theorem find?_map_view (view : String → Binding → BindingView) (same : ∀ key binding, (view key binding).name = key)
    (name : String) : ∀ b : Bindings,
    (b.map fun (key, binding) => view key binding).find? (·.name == name) = (b.get? name).map (view name)
  | [] => rfl
  | (key, binding) :: rest => by
    have ih := find?_map_view view same name rest
    unfold get? at ih ⊢
    rw [List.map_cons, List.find?_cons, List.lookup_cons, ih]
    dsimp only
    rw [same]
    by_cases found : key = name
    · rw [found, beq_self_eq_true]
      rfl
    · rw [beq_false_of_ne found, beq_false_of_ne (Ne.symm found)]

end Bindings

namespace State

theorem find?_frameView (s : State) (r : FrameRef) (name : String) :
    (s.frameView r).bindings.find? (·.name == name) = s.shows? name r := by
  unfold frameView
  dsimp only
  rw [find?_mergeSort_name]
  exact (s.frame r).bindings.find?_map_view (fun key b => s.viewOf key b) (fun _ _ => rfl) name

/-- Frames show the names that they bind. -/
theorem isSome_shows? (s : State) (name : String) (r : FrameRef) : (s.shows? name r).isSome = s.binds name r := by
  rw [shows?, Option.isSome_map, Bindings.get?_isSome]
  rfl

/-- The first frame that shows something is the first that binds the name. -/
theorem findSome?_shows? (s : State) (name : String) (frames : List FrameRef) :
    frames.findSome? (s.shows? name) = (frames.find? (s.binds name)).bind (s.shows? name) := by
  induction frames with
  | nil => rfl
  | cons r rest ih =>
    have shown := s.isSome_shows? name r
    rw [List.findSome?_cons, List.find?_cons]
    cases found : s.shows? name r with
    | none =>
      rw [found] at shown
      rw [← shown, ih]
      rfl
    | some view =>
      rw [found] at shown
      rw [← shown]
      exact found.symm

/-- A snapshot shows a name as the innermost frame of the chain has it. -/
theorem binding?_capture (s : State) (name : String) :
    (Snapshot.capture s none).binding? name = (s.nearest? name).bind (s.shows? name) := by
  have frames : (Snapshot.capture s none).frames.reverse = s.chain.map s.frameView := by
    show (s.chain.reverse.map s.frameView).reverse = _
    rw [List.map_reverse, List.reverse_reverse]
  unfold Snapshot.binding? nearest?
  rw [frames, List.find?_flatMap, List.findSome?_map, ← findSome?_shows?]
  exact congrArg (List.findSome? · s.chain) (funext fun r => s.find?_frameView r name)

/-- Something is shown if any frame of the chain binds the name. -/
theorem isSome_binding? (s : State) (name : String) :
    ((Snapshot.capture s none).binding? name).isSome = s.chain.any (s.binds name) := by
  rw [s.binding?_capture, Bool.eq_iff_iff, List.any_eq_true]
  constructor
  · intro shown
    obtain ⟨view, shown⟩ := Option.isSome_iff_exists.mp shown
    obtain ⟨r, nearest, -⟩ := Option.bind_eq_some_iff.mp shown
    exact ⟨r, List.mem_of_find?_eq_some nearest, List.find?_some nearest⟩
  · rintro ⟨r, member, bound⟩
    obtain ⟨nearest, found⟩ := Option.isSome_iff_exists.mp (List.find?_isSome.mpr ⟨r, member, bound⟩)
    rw [show s.nearest? name = some nearest from found]
    exact (s.isSome_shows? name nearest).trans (List.find?_some found)

/-- What a name means is what the innermost frame of the scope shows. -/
theorem lookup_shown (s : State) (name : String) (span : Option Span) :
    (s.lookup name span).toOption.map (s.viewOf name) = (s.lookupFrame? name).bind (s.shows? name) := by
  unfold lookup
  cases s.lookupFrame? name with
  | none => rfl
  | some r =>
    unfold shows?
    cases bound : (s.frame r).bindings.get? name with
    | none => simp [bound, Except.toOption]
    | some b => simp [bound, Except.toOption]

end State

/-! ## Agreement -/

/-- At every suspension point a snapshot shows a name exactly if some frame of the chain
    binds it, and then as the innermost such frame has it. So whatever can be looked up
    is shown. Looking the name up gives the same kind and the same value, or nothing where
    nothing is shown, unless the innermost frame that binds it is hidden from the scope;
    then it is found elsewhere or not at all. -/
theorem binding?_agrees (p : Program) (settings : Settings) (fuel : Nat) (s : State)
    (suspended : s ∈ p.suspensions settings fuel) (name : String) (span : Option Span) :
    (Snapshot.capture s none).binding? name = (s.nearest? name).bind (s.shows? name) ∧
    ((Snapshot.capture s none).binding? name).isSome = s.chain.any (s.binds name) ∧
    (∀ b, s.lookup name span = .ok b → ((Snapshot.capture s none).binding? name).isSome) ∧
    ((∀ r, s.nearest? name = some r → r ∈ s.scope) →
      (Snapshot.capture s none).binding? name = (s.lookup name span).toOption.map (s.viewOf name)) ∧
    ∀ r, s.nearest? name = some r → r ∉ s.scope → s.lookupFrame? name ≠ some r := by
  have lexical := Program.lexical_of_mem_suspensions suspended
  refine ⟨s.binding?_capture name, s.isSome_binding? name, ?_, ?_, ?_⟩
  · intro b looked
    have found := s.lookup_shown name span
    rw [looked] at found
    obtain ⟨r, at_r, -⟩ := Option.bind_eq_some_iff.mp found.symm
    rw [s.isSome_binding?, List.any_eq_true]
    exact ⟨r, lexical.mem_chain_of_mem_scope (List.mem_of_find?_eq_some at_r), List.find?_some at_r⟩
  · intro seen
    rw [s.binding?_capture, s.lookup_shown name span]
    cases nearest : s.nearest? name with
    | some r =>
      rw [show s.lookupFrame? name = some r from lexical.find?_scope nearest (seen r nearest)]
    | none =>
      have nowhere : s.lookupFrame? name = none := by
        refine List.find?_eq_none.mpr fun r member => ?_
        exact List.find?_eq_none.mp nearest r (lexical.mem_chain_of_mem_scope member)
      rw [nowhere]
  · intro r _ hidden found
    exact hidden (List.mem_of_find?_eq_some found)

/-- A local of a block is shown as it is looked up there. -/
theorem local_shown :
    let p : Program := ⟨[Tree.block [Tree.var "int" "x" (some (Tree.num 2.0)), Tree.expr (Tree.ident "x")]], none⟩
    ∃ s ∈ p.suspensions {} 20, s.steps = 8 ∧ (s.lookup "x" none).toOption.isSome ∧
      (Snapshot.capture s none).binding? "x" = (s.lookup "x" none).toOption.map (s.viewOf "x") := by
  intro p
  have found : (p.suspensions {} 20).any (fun s => decide (s.steps = 8) && (s.lookup "x" none).toOption.isSome &&
      decide (s.nearest? "x" = s.lookupFrame? "x")) = true := by decide +kernel
  obtain ⟨s, suspended, holds⟩ := List.any_eq_true.mp found
  rw [Bool.and_eq_true, Bool.and_eq_true, decide_eq_true_eq, decide_eq_true_eq] at holds
  obtain ⟨⟨step, bound⟩, same⟩ := holds
  refine ⟨s, suspended, step, bound, (binding?_agrees p {} 20 s suspended "x" none).2.2.2.1 fun r nearest => ?_⟩
  exact List.mem_of_find?_eq_some (same ▸ nearest)

/-- Inside a function a local of its caller is shown, although it cannot be looked up. -/
theorem caller_local_shown :
    let p : Program := ⟨[Tree.func "int" "f" [] [Tree.returnValue (some (Tree.num 1.0))],
      Tree.block [Tree.var "int" "x" (some (Tree.num 2.0)), Tree.expr (Tree.call "f" [])]], none⟩
    ∃ s ∈ p.suspensions {} 20, s.steps = 12 ∧ ((Snapshot.capture s none).binding? "x").isSome ∧
      (s.lookup "x" none).toOption.isNone := by
  intro p
  have found : (p.suspensions {} 20).any (fun s => decide (s.steps = 12) && s.chain.any (s.binds "x") &&
      (s.lookup "x" none).toOption.isNone) = true := by decide +kernel
  obtain ⟨s, suspended, holds⟩ := List.any_eq_true.mp found
  rw [Bool.and_eq_true, Bool.and_eq_true, decide_eq_true_eq] at holds
  exact ⟨s, suspended, holds.1.1, (s.isSome_binding? "x").trans holds.1.2, holds.2⟩

end MiniC
