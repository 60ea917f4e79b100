import MiniC.Proofs.Trail

/-!
# Bracketed logs

The events of a run are numbered without gaps and nest like brackets: every exit belongs to
the last entry that is still open, and finds the chain and the calls as the entry left them.
What ends early announces the beginning of such a log (`Task.bracketed`).
-/

namespace MiniC

/-! ## Brackets -/

/-- A log leads from one list of open entries to another, each given by its node and the
    state in which it was announced, the last one first. At every event the nodes being
    visited are those of the open entries. -/
inductive Log.Brackets : List (NodeSummary × State) → Log → List (NodeSummary × State) → Prop
  | nil {opened : List (NodeSummary × State)} : Brackets opened [] opened
  | enter {opened left : List (NodeSummary × State)} {n : NodeSummary} {s : State} {log : Log}
      (nodes : s.nodes = n :: opened.map (·.1)) (rest : Brackets ((n, s) :: opened) log left) :
      Brackets opened ((.enter n, s) :: log) left
  | exit {opened left : List (NodeSummary × State)} {n : NodeSummary} {since s : State} {log : Log}
      (nodes : s.nodes = opened.map (·.1)) (same : since.SameControl s) (rest : Brackets opened log left) :
      Brackets ((n, since) :: opened) ((.exit n, s) :: log) left

/-- The events of a log have the numbers that follow a given one. -/
def Log.Numbered (k : Nat) (log : Log) : Prop := log.map (·.2.steps) = List.range' (k + 1) log.length

/-- The log of a node from its entry to its exit. -/
structure Log.WellBracketed (n : NodeSummary) (log : Log) : Prop where
  numbered : log.Numbered 0
  first : (log.map (·.1)).head? = some (.enter n)
  last : (log.map (·.1)).getLast? = some (.exit n)
  brackets : Log.Brackets [] log []

namespace Log
variable {opened between left : List (NodeSummary × State)} {log more : Log} {k : Nat}

theorem Brackets.append (h : Brackets opened log between) (h' : Brackets between more left) :
    Brackets opened (log ++ more) left := by
  induction h with
  | nil => exact h'
  | enter nodes rest ih => exact .enter nodes (ih h')
  | exit nodes same rest ih => exact .exit nodes same (ih h')

theorem Numbered.append (h : log.Numbered k) (h' : more.Numbered (k + log.length)) : (log ++ more).Numbered k := by
  unfold Numbered at h h' ⊢
  rw [List.map_append, h, h', List.length_append, Nat.add_right_comm k, List.range'_append_1]

theorem numbered_cons {e : Event} {s : State} : Numbered k ((e, s) :: log) ↔ s.steps = k + 1 ∧ log.Numbered (k + 1) := by
  simp [Numbered, List.range'_succ]

/-- Open entries can be closed one after the other. -/
theorem Brackets.closes (opened : List (NodeSummary × State)) (k : Nat) :
    ∃ more, Brackets opened more [] ∧ more.Numbered k ∧ more.map (·.1) = opened.map fun entry => .exit entry.1 := by
  induction opened generalizing k with
  | nil => exact ⟨[], .nil, rfl, rfl⟩
  | cons entry opened ih =>
    obtain ⟨n, since⟩ := entry
    obtain ⟨more, brackets, numbered, events⟩ := ih (k + 1)
    let s : State := { since with nodes := opened.map (·.1), steps := k + 1, lastEvent := some (.exit n) }
    exact ⟨(.exit n, s) :: more, .exit rfl ⟨rfl, rfl⟩ brackets, numbered_cons.mpr ⟨rfl, numbered⟩,
      congrArg (Event.exit n :: ·) events⟩

end Log

/-! ## Trails are bracketed -/

namespace Trail
variable {settings : Settings} {n : NodeSummary} {s s' : State} {log : Log}

/-- A trail opens nothing that it does not close, and leaves the nodes being visited. -/
theorem brackets (h : Trail settings s log s') (opened : List (NodeSummary × State)) (nodes : s.nodes = opened.map (·.1)) :
    Log.Brackets opened log opened ∧ s'.nodes = s.nodes := by
  induction h generalizing opened with
  | calm change => exact ⟨.nil, change.nodes⟩
  | append first second ih ih' =>
    obtain ⟨brackets, same⟩ := ih opened nodes
    obtain ⟨brackets', same'⟩ := ih' opened (same.trans nodes)
    exact ⟨brackets.append brackets', same'.trans same⟩
  | @visit s s₁ log n may inner ih =>
    have entered : (s.entering n).nodes = n :: opened.map (·.1) := by rw [← nodes]; rfl
    obtain ⟨brackets, same⟩ := ih ((n, s.entering n) :: opened) entered
    have left : (s₁.leaving n).nodes = opened.map (·.1) := by
      show s₁.nodes.tail = _
      rw [same, entered, List.tail_cons]
    have control : (s.entering n).SameControl (s₁.leaving n) := State.sameControl_iff.mpr inner.control
    exact ⟨.enter entered (brackets.append (.exit left control .nil)), left.trans nodes.symm⟩
  | @frame _ s₁ _ _ plain inner ih =>
    obtain ⟨brackets, same⟩ := ih opened nodes
    exact ⟨brackets, (State.Calm.dropTop s₁).nodes.trans same⟩
  | @call _ s₁ _ name may inner ih =>
    obtain ⟨brackets, same⟩ := ih opened nodes
    exact ⟨brackets, (State.Calm.dropTop s₁).nodes.trans same⟩
  | @thunk _ s₁ _ _ v waits opens inner ih =>
    obtain ⟨brackets, same⟩ := ih opened nodes
    exact ⟨brackets, (State.Calm.dropTop s₁).nodes.trans same⟩

theorem nodes (h : Trail settings s log s') : s'.nodes = s.nodes :=
  (h.brackets (s.nodes.map (·, s)) (by simp [Function.comp_def])).2

/-- A trail counts its events. -/
theorem numbered (h : Trail settings s log s') : log.Numbered s.steps ∧ s'.steps = s.steps + log.length := by
  induction h with
  | calm change => exact ⟨rfl, change.steps⟩
  | append first second ih ih' =>
    obtain ⟨numbered, steps⟩ := ih
    obtain ⟨numbered', steps'⟩ := ih'
    rw [steps] at numbered' steps'
    exact ⟨numbered.append numbered', by rw [steps', List.length_append, Nat.add_assoc]⟩
  | @visit s s₁ log n may inner ih =>
    obtain ⟨numbered, steps⟩ := ih
    have left : (s₁.leaving n).steps = s.steps + 1 + log.length + 1 := congrArg (· + 1) steps
    refine ⟨Log.numbered_cons.mpr ⟨rfl, numbered.append (Log.numbered_cons.mpr ⟨left, rfl⟩)⟩, ?_⟩
    rw [left]
    simp only [List.length_cons, List.length_append, List.length_nil]
    omega
  | @frame _ s₁ _ _ plain inner ih => exact ⟨ih.1, s₁.dropTop_steps.trans ih.2⟩
  | @call _ s₁ _ name may inner ih => exact ⟨ih.1, s₁.dropTop_steps.trans ih.2⟩
  | @thunk _ s₁ _ _ v waits opens inner ih => exact ⟨ih.1, s₁.dropTop_steps.trans ih.2⟩

/-- What ends early leaves entries open, on top of those that were. -/
theorem Stopped.brackets (h : Stopped settings s log s') (opened : List (NodeSummary × State))
    (nodes : s.nodes = opened.map (·.1)) : ∃ above, Log.Brackets opened log (above ++ opened) := by
  induction h generalizing opened with
  | here | refused => exact ⟨[], .nil⟩
  | after first second ih =>
    obtain ⟨brackets, same⟩ := first.brackets opened nodes
    obtain ⟨above, brackets'⟩ := ih opened (same.trans nodes)
    exact ⟨above, brackets.append brackets'⟩
  | @visit s s₁ log n may inner ih =>
    have entered : (s.entering n).nodes = n :: opened.map (·.1) := by rw [← nodes]; rfl
    obtain ⟨above, brackets⟩ := ih ((n, s.entering n) :: opened) entered
    exact ⟨above ++ [(n, s.entering n)], by simpa using Log.Brackets.enter entered brackets⟩
  | frame plain inner ih => exact ih opened nodes
  | call name may inner ih => exact ih opened nodes
  | thunk waits opens inner ih => exact ih opened nodes

theorem Stopped.numbered (h : Stopped settings s log s') : log.Numbered s.steps := by
  induction h with
  | here | refused => rfl
  | after first second ih =>
    obtain ⟨numbered, steps⟩ := first.numbered
    rw [steps] at ih
    exact numbered.append ih
  | visit n may inner ih => exact Log.numbered_cons.mpr ⟨rfl, ih⟩
  | frame plain inner ih => exact ih
  | call name may inner ih => exact ih
  | thunk waits opens inner ih => exact ih

/-- The whole visit of a node, where nothing else is being visited. -/
theorem wellBracketed {s₁ : State} (may : s.MayStep settings) (inner : Trail settings (s.entering n) log s₁)
    (nodes : s.nodes = []) (steps : s.steps = 0) :
    Log.WellBracketed n ((.enter n, s.entering n) :: (log ++ [(.exit n, s₁.leaving n)])) where
  numbered := steps ▸ (Trail.visit n may inner).numbered.1
  first := rfl
  last := by
    rw [← List.cons_append, List.map_append]
    exact List.getLast?_concat
  brackets := ((Trail.visit n may inner).brackets [] nodes).1

/-- A visit that ends early can be completed. -/
theorem CutShort.completed (h : CutShort settings n s log s') (nodes : s.nodes = []) (steps : s.steps = 0) :
    ∃ more, Log.WellBracketed n (log ++ more) := by
  cases h with
  | refused never =>
    -- nothing has been announced: the node might have been entered and left under a higher limit
    have free : s.MayStep {} := nofun
    exact ⟨_, wellBracketed free (.calm (.refl _)) nodes steps⟩
  | @inside _ rest may inner =>
    have entered : (s.entering n).nodes = [n] := congrArg (n :: ·) nodes
    obtain ⟨above, brackets⟩ := inner.brackets [(n, s.entering n)] entered
    obtain ⟨more, closes, numbered, events⟩ := Log.Brackets.closes (above ++ [(n, s.entering n)]) (rest.length + 1)
    have counted : Log.Numbered 0 ((.enter n, s.entering n) :: rest) :=
      Log.numbered_cons.mpr ⟨congrArg (· + 1) steps, steps ▸ inner.numbered⟩
    refine ⟨more, ?_, rfl, ?_, .append (.enter ?_ brackets) closes⟩
    · refine counted.append ?_
      rwa [List.length_cons, Nat.zero_add]
    · rw [List.map_append, events, List.map_append, ← List.append_assoc]
      exact List.getLast?_concat
    · exact entered
  | leaving may inner => exact ⟨[], by rw [List.append_nil]; exact wellBracketed may inner nodes steps⟩

end Trail

/-! ## Tasks -/

/-- The events of every task, from any state, as its observer is shown them. If the task ends
    with a value they are well bracketed, from the entry of the program to its exit, and the
    steps afterwards are the number of events. If it fails or is halted they are the
    beginning of a well-bracketed log. -/
theorem Task.bracketed (t : Task) (s : State) :
    (t.run s).1 = (t.log s).map (·.2) ∧
    (Eval.execute ⟨t.settings, t.observer⟩ t.fuel t.program ⟨s, t.watch⟩).2.watch = t.observer.shown t.watch (t.log s) ∧
    (∀ v, t.result s = .ok v →
      (t.log s).WellBracketed t.program.summary ∧ (t.run s).2.steps = (t.log s).length) ∧
    ∀ i, t.result s = .error i → ∃ more, (t.log s ++ more).WellBracketed t.program.summary := by
  obtain ⟨seen, shown, trails⟩ := t.trails s
  refine ⟨seen, shown, fun v ended => ?_, fun i ended => ?_⟩
  · rw [ended] at trails
    obtain ⟨log, s₁, may, trail, left, whole⟩ := trails
    have counted := (Trail.visit t.program.summary may trail).numbered.2
    rw [whole, left, counted]
    exact ⟨Trail.wellBracketed may trail rfl rfl, Nat.zero_add _⟩
  · rw [ended] at trails
    obtain ⟨s', cut, -⟩ := trails
    exact cut.completed rfl rfl

/-- A function returns out of a loop, and the entry point is called last. Halted in the loop,
    the same run has shown the beginning of a longer log. -/
theorem Task.bracketed_return :
    let f := Tree.func "int" "main" [] [Tree.whileLoop (Tree.bool true) (Tree.returnValue (some (Tree.num 2.0)))]
    let whole : Task := ⟨{ entryPoint := some "main" }, .silent, (), 20, ⟨[f], none⟩⟩
    let halted : Task := ⟨{ entryPoint := some "main" }, .haltingAt fun _ s => s.steps == 9, (), 20, ⟨[f], none⟩⟩
    ((whole.log .seeded).length = 16 ∧ (whole.log .seeded).WellBracketed ⟨.program, none⟩) ∧
      (halted.log .seeded).length = 9 ∧ ∃ more, (halted.log .seeded ++ more).WellBracketed ⟨.program, none⟩ := by
  intro f whole halted
  constructor
  · have ends : (whole.result .seeded).isOk = true := by decide +kernel
    cases ended : whole.result .seeded with
    | error i =>
      rw [ended] at ends
      cases ends
    | ok v => exact ⟨by decide +kernel, ((whole.bracketed .seeded).2.2.1 v ended).1⟩
  · have stops : (halted.result .seeded).isOk = false := by decide +kernel
    cases ended : halted.result .seeded with
    | ok v =>
      rw [ended] at stops
      cases stops
    | error i => exact ⟨by decide +kernel, (halted.bracketed .seeded).2.2.2 i ended⟩

end MiniC
