import MiniC.Proofs.Passage

/-!
# Frames that exist

Whatever is evaluated, and however it ends, the stack holds frames that have been made, and
thunks are to be computed in such frames (`State.Grounded`). Unlike a lexical state, a grounded
one may have any frame on top: a thunk may be computed in a frame that has left the chain.
-/

namespace MiniC
variable {σ α β : Type}

namespace State

/-- The frames on the stack exist, as the global one does, and thunks are to be computed in
    frames that exist. No frame is detached. -/
structure Grounded (s : State) : Prop where
  nonempty : 0 < s.frames.size
  stack : ∀ r ∈ s.stack, ∃ n < s.frames.size, r = .numbered n
  homes (q : ThunkRef) : q.index < s.memory.thunks.size → ∃ n < s.frames.size, (s.memory.thunk q).home = .numbered n
  whole : s.detached.size = 0

namespace Grounded
variable {s s' : State}

/-- Frames may be made, and those that exist be put on the stack or become homes. -/
theorem change (h : s.Grounded) (frames : s.frames.size ≤ s'.frames.size) (detached : s'.detached.size = s.detached.size)
    (stack : ∀ r ∈ s'.stack, r ∈ s.stack ∨ ∃ n < s'.frames.size, r = .numbered n)
    (homes : ∀ q : ThunkRef, q.index < s'.memory.thunks.size →
      q.index < s.memory.thunks.size ∧ (s'.memory.thunk q).home = (s.memory.thunk q).home ∨
      ∃ n < s'.frames.size, (s'.memory.thunk q).home = .numbered n) : s'.Grounded := by
  have older {r : FrameRef} (exist : ∃ n < s.frames.size, r = .numbered n) : ∃ n < s'.frames.size, r = .numbered n := by
    obtain ⟨n, inside, same⟩ := exist
    exact ⟨n, Nat.lt_of_lt_of_le inside frames, same⟩
  refine ⟨Nat.lt_of_lt_of_le h.nonempty frames, fun r member => ?_, fun q made => ?_, detached.trans h.whole⟩
  · exact (stack r member).elim (fun old => older (h.stack r old)) id
  · rcases homes q made with ⟨old, same⟩ | new
    · rw [same]
      exact older (h.homes q old)
    · exact new

/-- Neither frames nor thunks are made, and nothing is put on the stack. -/
theorem still (h : s.Grounded) (frames : s'.frames.size = s.frames.size) (detached : s'.detached.size = s.detached.size)
    (stack : ∀ r ∈ s'.stack, r ∈ s.stack) (thunks : s'.memory.thunks = s.memory.thunks) : s'.Grounded := by
  refine h.change (Nat.le_of_eq frames.symm) detached (fun r member => .inl (stack r member)) fun q made => .inl ?_
  rw [Memory.thunk, Memory.thunk, ← thunks]
  exact ⟨made, rfl⟩

theorem top (h : s.Grounded) : ∃ n < s.frames.size, s.top = .numbered n := by
  unfold State.top
  cases stack : s.stack with
  | nil => exact ⟨0, h.nonempty, rfl⟩
  | cons r rest => exact h.stack r (stack ▸ List.mem_cons_self)

theorem modifyBindings (h : s.Grounded) (r : FrameRef) (f : Bindings → Bindings) : (s.modifyBindings r f).Grounded :=
  h.still (by simp) (by simp) (by simp) (by simp)

theorem bind (h : s.Grounded) (r : FrameRef) (name : String) (b : Binding) : (s.bind r name b).Grounded :=
  h.modifyBindings r _

theorem store (h : s.Grounded) (name : String) (v : Value) : (s.store name v).Grounded := by
  unfold State.store
  split
  · exact h.modifyBindings _ _
  · exact h

theorem pushInside (h : s.Grounded) (tag : FrameTag) (parent : FrameRef) : (s.pushInside tag parent).2.Grounded := by
  have size := s.size_frames_pushInside tag parent
  refine h.change (size ▸ Nat.le_succ _) rfl (fun r member => ?_) fun q made => .inl ⟨made, rfl⟩
  rcases List.mem_cons.mp member with rfl | old
  · exact .inr ⟨_, size ▸ Nat.lt_succ_self _, rfl⟩
  · exact .inl old

theorem calling (h : s.Grounded) (name : String) : (s.calling name).Grounded :=
  (h.pushInside (.call name) .global).still rfl rfl (fun _ => id) rfl

theorem clearIfGone (h : s.Grounded) (r : FrameRef) (rest : List FrameRef) : (s.clearIfGone r rest).Grounded := by
  unfold State.clearIfGone
  split
  · exact h
  · exact h.modifyBindings r _

theorem clearAll (h : s.Grounded) (stack : List FrameRef) : (s.clearAll stack).Grounded := by
  induction stack generalizing s with
  | nil => exact h
  | cons r rest ih => exact ih (h.clearIfGone r rest)

theorem dropTop (h : s.Grounded) : s.dropTop.Grounded :=
  h.still s.frames_dropTop s.detached_dropTop (fun _ member => List.mem_of_mem_tail (s.dropTop_stack ▸ member))
    (congrArg _ s.dropTop_memory)

theorem setPhase (h : s.Grounded) (q : ThunkRef) (phase : Phase) : (s.setPhase q phase).Grounded := by
  refine h.change (Nat.le_refl _) rfl (fun _ member => .inl member) fun p made => .inl ?_
  unfold State.setPhase at made ⊢
  rw [Memory.thunks_setPhase] at made
  rw [Memory.thunk_setPhase]
  exact ⟨made, by split <;> rfl⟩

theorem computing (h : s.Grounded) {q : ThunkRef} (exist : ∃ n < s.frames.size, (s.memory.thunk q).home = .numbered n) :
    (s.computing q).Grounded := by
  refine (h.setPhase q .forcing).change (Nat.le_refl _) rfl (fun r member => ?_) fun _ made => .inl ⟨made, rfl⟩
  rcases List.mem_cons.mp member with rfl | old
  · exact .inr exist
  · exact .inl old

theorem newThunk (h : s.Grounded) (n : Node) {home : FrameRef} (exist : ∃ n < s.frames.size, home = .numbered n) :
    State.Grounded { s with memory := (s.memory.newThunk n home).2 } := by
  refine h.change (Nat.le_refl _) rfl (fun _ member => .inl member) fun q made => ?_
  rcases Memory.thunk_newThunk_of_lt made with ⟨before, old⟩ | ⟨-, new⟩
  · exact .inl ⟨before, congrArg Thunk.home old⟩
  · obtain ⟨k, inside, same⟩ := exist
    exact .inr ⟨k, inside, (congrArg Thunk.home new).trans same⟩

theorem unwind (h : s.Grounded) : s.unwind.Grounded := (h.clearAll s.stack).still rfl rfl nofun rfl

theorem beginEvaluation (h : s.Grounded) : s.beginEvaluation.Grounded := h.unwind.still rfl rfl (fun _ => id) rfl

theorem recover (h : s.Grounded) (e : EvalError) : (s.recover e).Grounded := by
  have recorded : State.Grounded { s with errors := s.errors.push e } := h.still rfl rfl (fun _ => id) rfl
  exact recorded.unwind.still rfl rfl (fun _ => id) rfl

/-- Sessions start in a grounded state. -/
theorem seeded : State.seeded.Grounded := by
  have builtins (fs : List Builtin) {s : State} (h : s.Grounded) :
      (fs.foldl (fun s f => s.bind .global f.name ⟨f.result, .builtin f⟩) s).Grounded := by
    induction fs generalizing s with
    | nil => exact h
    | cons f rest ih => exact ih (h.bind _ _ _)
  have empty : State.Grounded {} := ⟨Nat.one_pos, nofun, fun _ made => absurd made (Nat.not_lt_zero _), rfl⟩
  exact (builtins Builtin.all empty).bind _ _ _

theorem act {law : Form → Bool} {settings : Settings} {b : Bool} {past : Log} (h : s.Grounded)
    (action : Act law settings b past s s') : s'.Grounded := by
  cases action with
  | write | newArray | newClosure => exact h.still rfl rfl (fun _ => id) rfl
  | delay => exact h.newThunk _ h.top
  | declare | declareLazy | declareFunction => exact h.bind _ _ _
  | @declareArray _ _ _ _ _ _ elements =>
    have made : State.Grounded { s with memory := (s.memory.newArray elements).2 } := h.still rfl rfl (fun _ => id) rfl
    exact made.bind _ _ _

/-- Everything that passages do leaves a grounded state. -/
theorem respected (law : Form → Bool) (settings : Settings) :
    Respected law settings fun s s' => s.Grounded → s'.Grounded where
  refl _ := id
  trans first second := second ∘ first
  act _ action h := h.act action
  count _ _ h := h.still rfl rfl (fun _ => id) rfl
  entering _ _ h := h.still rfl rfl (fun _ => id) rfl
  leaving _ _ h := h.still rfl rfl (fun _ => id) rfl
  push s tag h := h.pushInside tag s.top
  calling _ name h := h.calling name
  computing lexical seen h :=
    have ⟨inside, numbered⟩ := lexical.numbered_of_mem_scope seen
    h.computing ⟨_, inside, numbered⟩
  dropTop _ h := h.dropTop
  popCall _ h := h.still rfl rfl (fun _ => id) rfl
  setPhase _ q phase h := h.setPhase q phase
  store _ name v h := h.store name v
  setElement _ _ _ _ h := h.still rfl rfl (fun _ => id) rfl

end Grounded
end State

namespace Eval

/-- An evaluation leaves a grounded state, however it ends. -/
def Grounds (x : Eval σ α) : Prop := ∀ m : Machine σ, m.state.Grounded → (runOn x m).2.state.Grounded

namespace Grounds
variable {ctx : Context σ}

theorem pure (a : α) : Grounds (σ := σ) (pure a) := fun _ h => h

theorem stop (i : Interrupt) : Grounds (throw i : Eval σ α) := fun _ h => h

theorem state : Grounds (Eval.state (σ := σ)) := fun _ h => h

theorem bind {x : Eval σ α} {f : α → Eval σ β} (first : Grounds x) (second : ∀ a, Grounds (f a)) : Grounds (x >>= f) := by
  intro m h
  have begun := first m h
  rw [runOn_bind]
  generalize runOn x m = ended at begun ⊢
  obtain ⟨⟨i⟩ | ⟨a⟩, m₁⟩ := ended
  · exact begun
  · exact second a m₁ begun

theorem modifyGet {f : State → α × State} (h : ∀ s : State, s.Grounded → (f s).2.Grounded) :
    Grounds (Eval.modifyGet (σ := σ) f) := fun m grounded => h m.state grounded

theorem modify {f : State → State} (h : ∀ s : State, s.Grounded → (f s).Grounded) : Grounds (Eval.modify (σ := σ) f) :=
  modifyGet (f := fun s => ((), f s)) h

theorem allocate {f : Memory → α × Memory} (thunks : ∀ m, (f m).2.thunks = m.thunks) : Grounds (Eval.allocate (σ := σ) f) :=
  modifyGet fun s h => h.still rfl rfl (fun _ => id) (thunks s.memory)

theorem attempt {fault? : State → Option EvalError} {change : State → State} (h : ∀ s : State, s.Grounded → (change s).Grounded) :
    Grounds (Eval.attempt (σ := σ) fault? change) := by
  intro m grounded
  rw [runOn_attempt]
  cases fault? m.state with
  | some e => exact grounded
  | none => exact h m.state grounded

/-- What is put off is to be computed in the frame on top, which exists. -/
theorem delay (n : Node) : Grounds (Eval.delay (σ := σ) n) := fun _ h => h.newThunk n h.top

theorem inFrame {x : Eval σ α} {tag : FrameTag} (h : Grounds x) : Grounds (Eval.inFrame tag x) := by
  refine bind (modifyGet fun s grounded => grounded.pushInside tag s.top) fun n => bind h fun a => ?_
  exact bind (attempt fun _ grounded => grounded.dropTop) fun _ => pure a

theorem leaveCall (name : String) (n : Nat) : Grounds (Eval.leaveCall (σ := σ) name n) := by
  rintro ⟨s, w⟩ h
  obtain ⟨result, s', left, change⟩ := exists_runOn_leaveCall name n s
  rw [left]
  rcases change with rfl | rfl | rfl
  · exact h
  · exact h.dropTop
  · exact h.dropTop.still rfl rfl (fun _ => id) rfl

theorem inCall {x : Eval σ α} (name : String) (h : Grounds x) : Grounds (Eval.inCall name x) :=
  bind (modifyGet fun _ grounded => grounded.calling name) fun n => bind h fun a => bind (leaveCall name n) fun _ => pure a

theorem compute {x : Node → Eval σ Value} (q : ThunkRef) (h : ∀ n, Grounds (x n)) : Grounds (Eval.compute q x) := by
  intro m grounded
  rw [runOn_compute]
  dsimp only
  split
  · exact grounded
  · exact grounded
  · rename_i waits
    have made : q.index < m.state.memory.thunks.size := Memory.lt_of_phase fun v => waits ▸ nofun
    have run := h (m.state.memory.thunk q).expression { m with state := m.state.computing q } (grounded.computing (grounded.homes q made))
    unfold State.computing at run
    generalize runOn (x _) _ = ended at run ⊢
    obtain ⟨⟨i⟩ | ⟨v⟩, m₁⟩ := ended
    · exact run.setPhase q .pending
    · dsimp only
      split
      · exact run
      · exact run.dropTop.setPhase q _

theorem suspend (e : Event) : Grounds (Eval.suspend ctx e) := by
  intro m h
  have shown : State.Grounded { m.state with lastEvent := some e } := h.still rfl rfl (fun _ => id) rfl
  rw [runOn_suspend]
  split
  · exact shown
  · exact shown

theorem enter (n : NodeSummary) : Grounds (Eval.enter ctx n) := by
  intro m h
  have entered : (m.state.enterNode n).Grounded := h.still rfl rfl (fun _ => id) rfl
  rw [runOn_enter]
  split
  · exact entered
  · exact suspend _ ⟨_, m.watch⟩ entered

theorem exit (n : NodeSummary) : Grounds (Eval.exit ctx n) :=
  bind (modify fun _ h => h.still rfl rfl (fun _ => id) rfl) fun _ => suspend (.exit n)

/-- Staying grounded passes through every construct. -/
theorem lockstep (ctx : Context σ) : Lockstep ctx ctx (· = ·) (fun x _ => Grounds x) (fun x _ => Grounds x) where
  strategy := rfl
  pure := pure
  bind := bind
  fail e := stop (.error e)
  stray _ _ := bind state fun _ => stop _
  read h := bind state fun s => h s s (.refl s)
  sameValues v w := bind state fun s => by
    cases s.memory.same? v w with
    | none => exact stop _
    | some same => exact pure same
  newArray _ := allocate fun _ => rfl
  newClosure _ _ _ := allocate fun _ => rfl
  delay := delay
  setElement _ _ _ _ := modify fun _ h => h.still rfl rfl (fun _ => id) rfl
  write _ := modify fun _ h => h.still rfl rfl (fun _ => id) rfl
  declare _ _ _ _ := attempt fun _ h => h.bind _ _ _
  declareGlobal _ _ _ _ := attempt fun _ h => h.bind _ _ _
  redefine _ _ _ := modify fun _ h => h.bind _ _ _
  assign _ _ _ := attempt fun _ h => h.store _ _
  inFrame _ := inFrame
  inCall name span h := bind (bind state fun _ => by split; exact stop _; exact pure ()) fun _ => inCall name h
  compute := compute
  bracket n h := bind (enter n) fun _ => bind h fun a => bind (exit n) fun _ => pure a
  after := bind
  quit := stop _
  forget := id
  fuels_zero h := .inl h.symm
  fuels_succ h := ⟨_, h.symm, rfl⟩

end Grounds

/-- A value is computed from a grounded state, and leaves one. -/
theorem grounded_forceOn {ctx : Context σ} {m : Machine σ} (h : m.state.Grounded) (fuel : Nat) (v : Value) :
    (forceOn ctx fuel v m).2.state.Grounded :=
  ((Grounds.lockstep ctx).visitors (rfl : fuel = fuel)).force v m h

/-- Programs are run from grounded states, and leave them. -/
theorem grounded_execute (ctx : Context σ) {m : Machine σ} (h : m.state.Grounded) (fuel : Nat) (p : Program) :
    (execute ctx fuel p m).2.state.Grounded := by
  have ran := ((Grounds.lockstep ctx).program (rfl : fuel = fuel) p rfl) { m with state := m.state.beginEvaluation } h.beginEvaluation
  unfold execute
  generalize runOn _ _ = ended at ran ⊢
  obtain ⟨⟨i⟩ | ⟨v⟩, m'⟩ := ended
  · cases i with
    | error e => exact ran.recover e
    | _ => exact ran
  · exact ran

end Eval
end MiniC
