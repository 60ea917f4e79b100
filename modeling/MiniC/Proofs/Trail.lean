import MiniC.Proofs.Tracing

/-!
# Trails

Whatever state an evaluation starts from, proper or not, its steps are of a few kinds: it
changes bindings, the memory and the output, and it encloses other steps in the visit of a
node, in a frame, in a call or in the computation of a thunk. `Trail` says so of successful
evaluations and `Trail.Stopped` of those that end early, with the log of their events.
Passages know more of their actions, but only from proper states.
-/

namespace MiniC
variable {σ α β : Type}

/-! ## Lasting changes -/

/-- Frames and thunks stay what they are, arrays keep their lengths, and thunks that are being
    computed go on being computed. -/
structure State.Lasts (s s' : State) : Prop extends s.Grows s' where
  tag (n : Nat) : n < s.frames.size → (s'.frame (.numbered n)).tag = (s.frame (.numbered n)).tag
  lengths : s.memory.KeepsLengths s'.memory
  forcing (t : ThunkRef) : s.Forcing t → s'.Forcing t

namespace State.Lasts
variable {s s' s'' : State}

/-- The frames do not change. -/
theorem remember (frames : s'.frames = s.frames)
    (thunks : ∀ t : ThunkRef, t.index < s.memory.thunks.size →
      t.index < s'.memory.thunks.size ∧ (s'.memory.thunk t).home = (s.memory.thunk t).home)
    (lengths : s.memory.KeepsLengths s'.memory) (forcing : ∀ t, s.Forcing t → s'.Forcing t) : s.Lasts s' := by
  have same (n : Nat) : s'.frame (.numbered n) = s.frame (.numbered n) := by rw [frame, frame, frames]
  exact ⟨⟨Nat.le_of_eq (by rw [frames]), fun n _ => by rw [same], thunks⟩, fun n _ => by rw [same], lengths, forcing⟩

/-- Neither frames nor thunks change. -/
theorem arrays (frames : s'.frames = s.frames) (thunks : s'.memory.thunks = s.memory.thunks)
    (lengths : s.memory.KeepsLengths s'.memory) : s.Lasts s' := by
  have same (t : ThunkRef) : s'.memory.thunk t = s.memory.thunk t := by rw [Memory.thunk, Memory.thunk, thunks]
  exact remember frames (fun t inside => by rw [thunks, same]; exact ⟨inside, rfl⟩) lengths fun t forcing => by rwa [Forcing, same]

theorem still (frames : s'.frames = s.frames) (memory : s'.memory = s.memory) : s.Lasts s' :=
  arrays frames (by rw [memory]) (memory ▸ .refl _)

theorem refl (s : State) : s.Lasts s := still rfl rfl

theorem trans (h : s.Lasts s') (h' : s'.Lasts s'') : s.Lasts s'' where
  toGrows := h.toGrows.trans h'.toGrows
  tag n inside := (h'.tag n (Nat.lt_of_lt_of_le inside h.frames)).trans (h.tag n inside)
  lengths := h.lengths.trans h'.lengths
  forcing t forcing := h'.forcing t (h.forcing t forcing)

theorem newThunk (s : State) (n : Node) (home : FrameRef) :
    State.Lasts s { s with memory := (s.memory.newThunk n home).2 } := by
  refine remember rfl (fun t inside => ?_) (.still rfl) fun t forcing => forcing_newThunk forcing n home
  dsimp only
  rw [Memory.thunks_newThunk, Memory.thunk_newThunk n home inside]
  exact ⟨Nat.lt_succ_of_lt inside, rfl⟩

/-- The phase of a thunk changes that was not being computed at first. -/
theorem setPhase (h : s.Lasts s') {t : ThunkRef} (waits : (s.memory.thunk t).phase = .pending) (phase : Phase) :
    s.Lasts (s'.setPhase t phase) := by
  refine ⟨⟨h.frames, h.around, fun q inside => ?_⟩, h.tag, h.lengths.trans (.still rfl), fun q forcing => ?_⟩
  · show q.index < (s'.memory.setPhase t phase).thunks.size ∧ ((s'.memory.setPhase t phase).thunk q).home = _
    rw [Memory.thunks_setPhase, Memory.thunk_setPhase]
    split
    · exact h.thunks q inside
    · exact h.thunks q inside
  · refine forcing_setPhase phase (h.forcing q forcing) ?_
    rintro rfl
    cases waits.symm.trans forcing

theorem modifyBindings (s : State) (r : FrameRef) (f : Bindings → Bindings) : s.Lasts (s.modifyBindings r f) := by
  refine ⟨⟨Nat.le_of_eq (by simp), fun n _ => by simp, fun t inside => by simpa using inside⟩, fun n _ => ?_,
    .still (by simp), fun t => by simp [Forcing]⟩
  cases r with
  | detached k => rfl
  | numbered k =>
    rw [frame_modifyBindings]
    split
    · rfl
    · rfl

theorem pushInside (s : State) (tag : FrameTag) (parent : FrameRef) : s.Lasts (s.pushInside tag parent).2 := by
  refine ⟨⟨?_, fun n inside => by rw [frame_pushInside_of_lt tag parent inside], fun t inside => ⟨inside, rfl⟩⟩,
    fun n inside => by rw [frame_pushInside_of_lt tag parent inside], .refl _, fun t => id⟩
  rw [size_frames_pushInside]
  exact Nat.le_succ _

theorem calling (s : State) (name : String) : s.Lasts (s.calling name) :=
  (pushInside s (.call name) .global).trans (still rfl rfl)

theorem entering (s : State) (n : NodeSummary) : s.Lasts (s.entering n) := still rfl rfl

theorem leaving (s : State) (n : NodeSummary) : s.Lasts (s.leaving n) := still rfl rfl

theorem popCall (s : State) : s.Lasts s.popCall := still rfl rfl

theorem computing {t : ThunkRef} (waits : (s.memory.thunk t).phase = .pending) : s.Lasts (s.computing t) :=
  ((refl s).setPhase waits .forcing).trans (still rfl rfl)

end State.Lasts

/-! ## Calm changes -/

/-- What changes of bindings, of the memory and of the output leave alone. -/
structure State.Calm (s s' : State) : Prop extends s.Lasts s' where
  stack : s'.stack = s.stack
  calls : s'.calls = s.calls
  nodes : s'.nodes = s.nodes
  steps : s'.steps = s.steps
  errors : s'.errors = s.errors
  names (name : String) : (s.global? name).isSome → (s'.global? name).isSome

namespace State.Calm
variable {s s' s'' : State}

/-- Nothing is changed but the memory, the output and the like. -/
theorem remember (lasts : s.Lasts s') (frames : s'.frames = s.frames) (stack : s'.stack = s.stack)
    (calls : s'.calls = s.calls) (nodes : s'.nodes = s.nodes) (steps : s'.steps = s.steps)
    (errors : s'.errors = s.errors) : s.Calm s' := by
  refine ⟨lasts, stack, calls, nodes, steps, errors, fun name bound => ?_⟩
  rwa [global?, FrameRef.global, frame, frames]

theorem still (frames : s'.frames = s.frames) (memory : s'.memory = s.memory) (stack : s'.stack = s.stack)
    (calls : s'.calls = s.calls) (nodes : s'.nodes = s.nodes) (steps : s'.steps = s.steps)
    (errors : s'.errors = s.errors) : s.Calm s' :=
  remember (.still frames memory) frames stack calls nodes steps errors

/-- Arrays are made or changed. -/
theorem arrays (s : State) {m : Memory} (thunks : m.thunks = s.memory.thunks) (lengths : s.memory.KeepsLengths m) :
    State.Calm s { s with memory := m } := remember (.arrays rfl thunks lengths) rfl rfl rfl rfl rfl rfl

theorem refl (s : State) : s.Calm s := still rfl rfl rfl rfl rfl rfl rfl

theorem trans (h : s.Calm s') (h' : s'.Calm s'') : s.Calm s'' where
  toLasts := h.toLasts.trans h'.toLasts
  stack := h'.stack.trans h.stack
  calls := h'.calls.trans h.calls
  nodes := h'.nodes.trans h.nodes
  steps := h'.steps.trans h.steps
  errors := h'.errors.trans h.errors
  names name bound := h'.names name (h.names name bound)

theorem newThunk (s : State) (n : Node) (home : FrameRef) :
    State.Calm s { s with memory := (s.memory.newThunk n home).2 } := remember (.newThunk s n home) rfl rfl rfl rfl rfl rfl

/-- The bindings of a frame change, and the global frame loses no name by it. -/
theorem modifyBindings {r : FrameRef} {f : Bindings → Bindings}
    (keeps : r = .global → ∀ (b : Bindings) name, (b.get? name).isSome → ((f b).get? name).isSome) :
    s.Calm (s.modifyBindings r f) := by
  cases r with
  | detached k => exact still rfl rfl rfl rfl rfl rfl rfl
  | numbered k =>
    refine ⟨.modifyBindings s _ f, rfl, rfl, rfl, rfl, rfl, fun name bound => ?_⟩
    rw [global?, FrameRef.global, frame_modifyBindings]
    split
    · rename_i here
      exact keeps (by rw [← here.1]; rfl) _ name bound
    · exact bound

theorem bind (s : State) (r : FrameRef) (name : String) (b : Binding) : s.Calm (s.bind r name b) := by
  refine modifyBindings fun _ old x bound => ?_
  rw [Bindings.get?_insert]
  split
  · rfl
  · exact bound

theorem store (s : State) (name : String) (v : Value) : s.Calm (s.store name v) := by
  unfold State.store
  split
  · refine modifyBindings fun _ old x bound => ?_
    rw [Bindings.get?_update]
    split
    · rwa [Option.isSome_map]
    · exact bound
  · exact refl s

/-- A frame that leaves the stack loses its bindings, and it is not the global one. -/
theorem clearIfGone (s : State) (r : FrameRef) (rest : List FrameRef) : s.Calm (s.clearIfGone r rest) := by
  unfold State.clearIfGone
  split
  · exact refl s
  · rename_i gone
    refine modifyBindings fun outermost => ?_
    rw [outermost] at gone
    exact absurd (.inl rfl) gone

theorem clearAll (s : State) (stack : List FrameRef) : s.Calm (s.clearAll stack) := by
  induction stack generalizing s with
  | nil => exact refl s
  | cons r rest ih => exact (clearIfGone s r rest).trans (ih _)

theorem dropTop (s : State) : State.Calm { s with stack := s.stack.tail } s.dropTop := by
  unfold State.dropTop
  split
  · rename_i none
    exact still rfl rfl (by rw [none]; rfl) rfl rfl rfl rfl
  · rename_i r rest stack
    rw [stack]
    exact clearIfGone { s with stack := rest } r rest

end State.Calm

namespace State.Lasts

theorem dropTop (s : State) : s.Lasts s.dropTop :=
  (still rfl rfl : s.Lasts { s with stack := s.stack.tail }).trans (Calm.dropTop s).toLasts

theorem unwind (s : State) : s.Lasts s.unwind := (Calm.clearAll s s.stack).toLasts.trans (still rfl rfl)

theorem beginEvaluation (s : State) : s.Lasts s.beginEvaluation := (unwind s).trans (still rfl rfl)

theorem recover (s : State) (e : EvalError) : s.Lasts (s.recover e) :=
  (still rfl rfl : s.Lasts { s with errors := s.errors.push e }).trans ((unwind _).trans (still rfl rfl))

end State.Lasts

/-! ## Trails -/

/-- A log begins with the entry of a node, in the state that follows a given one. -/
def Log.Opens (n : NodeSummary) (s : State) (log : Log) : Prop := ∃ rest, log = (.enter n, s.entering n) :: rest

/-- What successful evaluations do to a state, with what they announce. -/
inductive Trail (settings : Settings) : State → Log → State → Prop
  | calm {s s' : State} (change : s.Calm s') : Trail settings s [] s'
  | append {s s₁ s₂ : State} {log more : Log} (first : Trail settings s log s₁) (second : Trail settings s₁ more s₂) :
      Trail settings s (log ++ more) s₂
  | visit {s s₁ : State} {log : Log} (n : NodeSummary) (may : s.MayStep settings)
      (inner : Trail settings (s.entering n) log s₁) :
      Trail settings s ((.enter n, s.entering n) :: (log ++ [(.exit n, s₁.leaving n)])) (s₁.leaving n)
  | frame {s s₁ : State} {log : Log} {tag : FrameTag} (plain : ∀ f, tag ≠ .call f)
      (inner : Trail settings (s.push tag).2 log s₁) : Trail settings s log s₁.dropTop
  | call {s s₁ : State} {log : Log} (name : String) (may : s.callDepth < settings.maxCallDepth)
      (inner : Trail settings (s.calling name) log s₁) : Trail settings s log s₁.dropTop.popCall
  | thunk {s s₁ : State} {log : Log} {t : ThunkRef} (v : Value) (waits : (s.memory.thunk t).phase = .pending)
      (opens : ∃ n, log.Opens n (s.computing t)) (inner : Trail settings (s.computing t) log s₁) :
      Trail settings s log (s₁.dropTop.setPhase t (.forced v))

/-- What evaluations have done to a state that end early, with what they have announced. -/
inductive Trail.Stopped (settings : Settings) : State → Log → State → Prop
  | here {s : State} : Stopped settings s [] s
  | after {s s₁ s₂ : State} {log more : Log} (first : Trail settings s log s₁) (second : Stopped settings s₁ more s₂) :
      Stopped settings s (log ++ more) s₂
  | refused {s : State} (n : NodeSummary) (never : ¬ s.MayStep settings) : Stopped settings s [] (s.enterNode n)
  | visit {s s₁ : State} {log : Log} (n : NodeSummary) (may : s.MayStep settings)
      (inner : Stopped settings (s.entering n) log s₁) : Stopped settings s ((.enter n, s.entering n) :: log) s₁
  | frame {s s₁ : State} {log : Log} {tag : FrameTag} (plain : ∀ f, tag ≠ .call f)
      (inner : Stopped settings (s.push tag).2 log s₁) : Stopped settings s log s₁
  | call {s s₁ : State} {log : Log} (name : String) (may : s.callDepth < settings.maxCallDepth)
      (inner : Stopped settings (s.calling name) log s₁) : Stopped settings s log s₁
  | thunk {s s₁ : State} {log : Log} {t : ThunkRef} (waits : (s.memory.thunk t).phase = .pending)
      (opens : log = [] ∨ ∃ n, log.Opens n (s.computing t)) (inner : Stopped settings (s.computing t) log s₁) :
      Stopped settings s log (s₁.setPhase t .pending)

/-- How the visit of a node ends early: it is not allowed, it stops inside the node, or it is
    halted when the node is left. -/
inductive Trail.CutShort (settings : Settings) (n : NodeSummary) (s : State) : Log → State → Prop
  | refused (never : ¬ s.MayStep settings) : CutShort settings n s [] (s.enterNode n)
  | inside {s₁ : State} {log : Log} (may : s.MayStep settings) (inner : Stopped settings (s.entering n) log s₁) :
      CutShort settings n s ((.enter n, s.entering n) :: log) s₁
  | leaving {s₁ : State} {log : Log} (may : s.MayStep settings) (inner : Trail settings (s.entering n) log s₁) :
      CutShort settings n s ((.enter n, s.entering n) :: (log ++ [(.exit n, s₁.leaving n)])) (s₁.leaving n)

namespace Trail
variable {settings : Settings} {n : NodeSummary} {s s' : State} {log : Log}

theorem CutShort.stopped (h : CutShort settings n s log s') : Stopped settings s log s' := by
  cases h with
  | refused never => exact .refused n never
  | inside may inner => exact .visit n may inner
  | leaving may inner => simpa using Stopped.after (.visit n may inner) .here

theorem CutShort.opens (h : CutShort settings n s log s') : log = [] ∨ ∃ n, log.Opens n s := by
  cases h with
  | refused never => exact .inl rfl
  | inside may inner => exact .inr ⟨n, _, rfl⟩
  | leaving may inner => exact .inr ⟨n, _, rfl⟩

/-- A trail leaves the stack and the calls as they were. -/
theorem control (h : Trail settings s log s') : s'.stack = s.stack ∧ s'.calls = s.calls := by
  induction h with
  | calm change => exact ⟨change.stack, change.calls⟩
  | append first second ih ih' => exact ⟨ih'.1.trans ih.1, ih'.2.trans ih.2⟩
  | visit n may inner ih => exact ih
  | frame plain inner ih =>
    rw [State.dropTop_stack, State.dropTop_calls, ih.1, ih.2]
    exact ⟨rfl, rfl⟩
  | call name may inner ih =>
    simp only [State.popCall, State.dropTop_stack, State.dropTop_calls, ih.1, ih.2]
    exact ⟨rfl, rfl⟩
  | thunk v waits opens inner ih =>
    simp only [State.setPhase, State.dropTop_stack, State.dropTop_calls, ih.1, ih.2]
    exact ⟨rfl, rfl⟩

/-- A thunk that is computed on a trail was not being computed at its start. -/
theorem lasts (h : Trail settings s log s') : s.Lasts s' := by
  induction h with
  | calm change => exact change.toLasts
  | append first second ih ih' => exact ih.trans ih'
  | visit n may inner ih => exact (State.Lasts.entering _ n).trans (ih.trans (.leaving _ n))
  | frame plain inner ih => exact (State.Lasts.pushInside _ _ _).trans (ih.trans (.dropTop _))
  | call name may inner ih => exact (State.Lasts.calling _ name).trans (ih.trans ((State.Lasts.dropTop _).trans (.popCall _)))
  | thunk v waits opens inner ih =>
    exact ((State.Lasts.computing waits).trans (ih.trans (.dropTop _))).setPhase waits _

theorem Stopped.lasts (h : Stopped settings s log s') : s.Lasts s' := by
  induction h with
  | here => exact .refl _
  | refused n never => exact .still rfl rfl
  | after first second ih => exact first.lasts.trans ih
  | visit n may inner ih => exact (State.Lasts.entering _ n).trans ih
  | frame plain inner ih => exact (State.Lasts.pushInside _ _ _).trans ih
  | call name may inner ih => exact (State.Lasts.calling _ name).trans ih
  | thunk waits opens inner ih => exact ((State.Lasts.computing waits).trans ih).setPhase waits _

/-- The log of a trail shows each event in the state that it is the last event of. -/
theorem events (h : Trail settings s log s') : ∀ entry ∈ log, entry.2.lastEvent = some entry.1 := by
  induction h with
  | calm change => exact List.forall_mem_nil _
  | append first second ih ih' => exact List.forall_mem_append.mpr ⟨ih, ih'⟩
  | visit n may inner ih => exact Log.forall_around.mpr ⟨rfl, ih, rfl⟩
  | frame _ _ ih | call _ _ _ ih | thunk _ _ _ _ ih => exact ih

theorem Stopped.events (h : Stopped settings s log s') : ∀ entry ∈ log, entry.2.lastEvent = some entry.1 := by
  induction h with
  | here | refused => exact List.forall_mem_nil _
  | after first second ih => exact List.forall_mem_append.mpr ⟨first.events, ih⟩
  | visit n may inner ih => exact List.forall_mem_cons.mpr ⟨rfl, ih⟩
  | frame _ _ ih | call _ _ _ ih | thunk _ _ _ ih => exact ih

/-! ### Relations along trails -/

/-- A relation of states that everything on trails respects. -/
structure Respected (R : State → State → Prop) : Prop where
  trans {s s' s'' : State} : R s s' → R s' s'' → R s s''
  calm {s s' : State} : s.Calm s' → R s s'
  count (s : State) (n : NodeSummary) : R s (s.enterNode n)
  entering (s : State) (n : NodeSummary) : R s (s.entering n)
  leaving (s : State) (n : NodeSummary) : R s (s.leaving n)
  push (s : State) (tag : FrameTag) : R s (s.push tag).2
  calling (s : State) (name : String) : R s (s.calling name)
  computing (s : State) (t : ThunkRef) : R s (s.computing t)
  dropTop (s : State) : R s s.dropTop
  popCall (s : State) : R s s.popCall
  setPhase (s : State) (t : ThunkRef) (phase : Phase) : R s (s.setPhase t phase)

section along
variable {R : State → State → Prop} (respected : Respected R)
include respected

theorem Respected.refl (s : State) : R s s := respected.calm (.refl s)

theorem along (h : Trail settings s log s') : Log.Along R s log s' := by
  induction h with
  | calm change => exact .nil (respected.calm change)
  | append first second ih ih' => exact .append respected.trans ih ih'
  | @visit s s₁ log n may inner ih =>
    have entered := Log.Along.single (respected.refl _) (respected.entering s n) (.enter n)
    have left := Log.Along.single (respected.refl _) (respected.leaving s₁ n) (.exit n)
    exact .append (R := R) respected.trans entered (.append (R := R) respected.trans ih left)
  | frame plain inner ih => exact .around respected.trans (respected.push _ _) ih (respected.dropTop _)
  | call name may inner ih =>
    exact .around respected.trans (respected.calling _ name) ih
      (respected.trans (respected.dropTop _) (respected.popCall _))
  | thunk v waits opens inner ih =>
    exact .around respected.trans (respected.computing _ _) ih
      (respected.trans (respected.dropTop _) (respected.setPhase _ _ _))

theorem Stopped.along (h : Stopped settings s log s') : Log.Along R s log s' := by
  induction h with
  | here => exact .nil (respected.refl _)
  | refused n never => exact .nil (respected.count _ n)
  | after first second ih => exact .append respected.trans (first.along respected) ih
  | @visit s s₁ log n may inner ih =>
    have entered := Log.Along.single (respected.refl _) (respected.entering s n) (.enter n)
    exact .append (R := R) respected.trans entered ih
  | frame plain inner ih => exact .around respected.trans (respected.push _ _) ih (respected.refl _)
  | call name may inner ih => exact .around respected.trans (respected.calling _ name) ih (respected.refl _)
  | thunk waits opens inner ih => exact .around respected.trans (respected.computing _ _) ih (respected.setPhase _ _ _)

end along

end Trail

/-! ## Evaluations -/

namespace Eval

/-- From every state an evaluation leaves a trail, whose log its observer is shown. If it is
    to begin with the entry of a node it does so, or ends early before. -/
def Trails (ctx : Context σ) (begins : Bool) (x : Eval σ α) : Prop := ∀ m,
  match runOn x m with
  | (.ok _, m') => ∃ log, Trail ctx.settings m.state log m'.state ∧ m'.watch = ctx.observer.shown m.watch log ∧
      (begins = true → ∃ n, log.Opens n m.state)
  | (.error _, m') => ∃ log, Trail.Stopped ctx.settings m.state log m'.state ∧
      m'.watch = ctx.observer.shown m.watch log ∧ (begins = true → log = [] ∨ ∃ n, log.Opens n m.state)

namespace Trails
variable {ctx : Context σ} {b : Bool}

theorem pure (a : α) : Trails ctx false (pure a) := fun m => ⟨[], .calm (.refl m.state), rfl, nofun⟩

theorem stop (i : Interrupt) : Trails ctx b (throw i : Eval σ α) := fun _ => ⟨[], .here, rfl, fun _ => .inl rfl⟩

theorem state : Trails ctx false (Eval.state (σ := σ)) := fun m => ⟨[], .calm (.refl m.state), rfl, nofun⟩

theorem modifyGet {f : State → α × State} (h : ∀ s : State, s.Calm (f s).2) :
    Trails ctx false (Eval.modifyGet (σ := σ) f) := fun m => ⟨[], .calm (h m.state), rfl, nofun⟩

theorem modify {f : State → State} (h : ∀ s : State, s.Calm (f s)) : Trails ctx false (Eval.modify (σ := σ) f) :=
  fun m => ⟨[], .calm (h m.state), rfl, nofun⟩

/-- An allocation that makes no thunk. -/
theorem allocate {f : Memory → α × Memory} (thunks : ∀ m, (f m).2.thunks = m.thunks)
    (lengths : ∀ m : Memory, m.KeepsLengths (f m).2) : Trails ctx false (Eval.allocate (σ := σ) f) :=
  modifyGet fun s => .arrays s (thunks s.memory) (lengths s.memory)

theorem forget {x : Eval σ α} (h : Trails ctx true x) : Trails ctx false x := by
  intro m
  have run := h m
  generalize runOn x m = outcome at run ⊢
  obtain ⟨⟨i⟩ | ⟨a⟩, m'⟩ := outcome
  · obtain ⟨log, stopped, watched, -⟩ := run
    exact ⟨log, stopped, watched, nofun⟩
  · obtain ⟨log, trail, watched, -⟩ := run
    exact ⟨log, trail, watched, nofun⟩

theorem opens_append {n : NodeSummary} {s : State} {log : Log} (h : log.Opens n s) (more : Log) :
    Log.Opens n s (log ++ more) := by
  obtain ⟨rest, rfl⟩ := h
  exact ⟨rest ++ more, rfl⟩

theorem bind {x : Eval σ α} {f : α → Eval σ β} (first : Trails ctx b x) (second : ∀ a, Trails ctx false (f a)) :
    Trails ctx b (x >>= f) := by
  intro m
  have begun := first m
  rw [runOn_bind]
  generalize runOn x m = outcome at begun ⊢
  obtain ⟨⟨i⟩ | ⟨a⟩, m₁⟩ := outcome
  · exact begun
  · obtain ⟨log, trail, watched, opens⟩ := begun
    have done := second a m₁
    dsimp only
    generalize runOn (f a) m₁ = outcome at done ⊢
    obtain ⟨⟨i⟩ | ⟨r⟩, m₂⟩ := outcome
    · obtain ⟨more, stopped, watched', -⟩ := done
      refine ⟨log ++ more, .after trail stopped, by rw [watched', watched, Observer.shown_append], fun h => .inr ?_⟩
      obtain ⟨n, opened⟩ := opens h
      exact ⟨n, opens_append opened more⟩
    · obtain ⟨more, trail', watched', -⟩ := done
      refine ⟨log ++ more, .append trail trail', by rw [watched', watched, Observer.shown_append], fun h => ?_⟩
      obtain ⟨n, opened⟩ := opens h
      exact ⟨n, opens_append opened more⟩

theorem attempt {fault? : State → Option EvalError} {change : State → State} (h : ∀ s : State, s.Calm (change s)) :
    Trails ctx false (Eval.attempt (σ := σ) fault? change) := by
  refine bind state fun s => ?_
  cases fault? s with
  | some e => exact stop _
  | none => exact modify h

/-! ## Visits -/

/-- What happens between the events of a node, and the events. -/
theorem visiting {x : Eval σ α} (n : NodeSummary) (h : Trails ctx false x) (m : Machine σ) :
    match runOn (do Eval.enter ctx n; let a ← x; Eval.exit ctx n; Pure.pure a) m with
    | (.ok _, m') => ∃ log s₁, m.state.MayStep ctx.settings ∧ Trail ctx.settings (m.state.entering n) log s₁ ∧
        m'.state = s₁.leaving n ∧ m'.watch = ctx.observer.shown m.watch
          ((.enter n, m.state.entering n) :: (log ++ [(.exit n, s₁.leaving n)]))
    | (.error _, m') => ∃ log, Trail.CutShort ctx.settings n m.state log m'.state ∧
        m'.watch = ctx.observer.shown m.watch log := by
  obtain ⟨s, w⟩ := m
  by_cases may : s.MayStep ctx.settings
  · rw [runOn_bind, Traces.runOn_entering n may]
    rcases shown : ctx.observer.onStep w (.enter n) (s.entering n) with ⟨w₁, action⟩
    have watched : w₁ = ctx.observer.shown w [(.enter n, s.entering n)] := by rw [Observer.shown_single, shown]
    cases action with
    | halt => exact ⟨_, .inside may .here, watched⟩
    | proceed =>
      have done := h ⟨s.entering n, w₁⟩
      dsimp only
      rw [runOn_bind]
      generalize runOn x ⟨s.entering n, w₁⟩ = outcome at done ⊢
      obtain ⟨⟨i⟩ | ⟨a⟩, m₁⟩ := outcome
      · obtain ⟨log, stopped, watched', -⟩ := done
        refine ⟨_, .inside may stopped, ?_⟩
        rw [watched', watched, ← Observer.shown_append]
        rfl
      · obtain ⟨log, trail, watched', -⟩ := done
        have after : ctx.observer.shown w ((.enter n, s.entering n) :: (log ++ [(.exit n, m₁.state.leaving n)])) =
            (ctx.observer.onStep m₁.watch (.exit n) (m₁.state.leaving n)).1 := by
          rw [watched', watched, ← Observer.shown_append, ← List.singleton_append, ← List.append_assoc,
            Observer.shown_append, Observer.shown_single]
        dsimp only
        rw [runOn_bind, Traces.runOn_leaving]
        rcases shown' : ctx.observer.onStep m₁.watch (.exit n) (m₁.state.leaving n) with ⟨w₂, action⟩
        rw [shown'] at after
        cases action with
        | halt => exact ⟨_, .leaving may trail, after.symm⟩
        | proceed => exact ⟨log, m₁.state, may, trail, rfl, after.symm⟩
  · obtain ⟨limit, -, -, refused⟩ := Traces.runOn_refused ctx n may w
    rw [runOn_bind, refused]
    exact ⟨[], .refused may, rfl⟩

theorem bracket {x : Eval σ α} (n : NodeSummary) (h : Trails ctx false x) :
    Trails ctx true (do Eval.enter ctx n; let a ← x; Eval.exit ctx n; Pure.pure a) := by
  intro m
  have run := visiting n h m
  generalize runOn _ m = outcome at run ⊢
  obtain ⟨⟨i⟩ | ⟨a⟩, m'⟩ := outcome
  · obtain ⟨log, cut, watched⟩ := run
    exact ⟨log, cut.stopped, watched, fun _ => cut.opens⟩
  · obtain ⟨log, s₁, may, trail, left, watched⟩ := run
    exact ⟨_, left ▸ .visit n may trail, watched, fun _ => ⟨n, _, rfl⟩⟩

/-! ## Frames, calls and thunks -/

theorem inFrame {x : Eval σ α} {tag : FrameTag} (plain : ∀ f, tag ≠ .call f) (h : Trails ctx false x) :
    Trails ctx false (Eval.inFrame tag x) := by
  intro m
  have run := h { m with state := (m.state.push tag).2 }
  rw [runOn_inFrame]
  generalize runOn x { m with state := (m.state.push tag).2 } = outcome at run ⊢
  obtain ⟨⟨i⟩ | ⟨a⟩, m₁⟩ := outcome
  · obtain ⟨log, stopped, watched, -⟩ := run
    exact ⟨log, .frame plain stopped, watched, nofun⟩
  · obtain ⟨log, trail, watched, -⟩ := run
    have fine : m₁.state.popFault? m.state.frames.size = none :=
      State.popFault?_eq_none (r := .numbered m.state.frames.size) trail.control.1
    simp only [fine]
    exact ⟨log, .frame plain trail, watched, nofun⟩

theorem inCall {x : Eval σ α} (name : String) (span : Option Span) (h : Trails ctx false x) :
    Trails ctx false (do Eval.checkDepth ctx.settings.maxCallDepth span; Eval.inCall name x) := by
  intro m
  rw [runOn_bind, runOn_checkDepth]
  by_cases deep : ctx.settings.maxCallDepth ≤ m.state.callDepth
  · rw [if_pos deep]
    exact ⟨[], .here, rfl, nofun⟩
  · rw [if_neg deep]
    have may : m.state.callDepth < ctx.settings.maxCallDepth := Nat.not_le.mp deep
    have run := h { m with state := ((m.state.pushInside (.call name) .global).2.pushCall
      ⟨name, m.state.top.number, m.state.frames.size⟩) }
    dsimp only
    rw [runOn_inCall]
    generalize runOn x _ = outcome at run ⊢
    obtain ⟨⟨i⟩ | ⟨a⟩, m₁⟩ := outcome
    · obtain ⟨log, stopped, watched, -⟩ := run
      exact ⟨log, .call name may stopped, watched, nofun⟩
    · obtain ⟨log, trail, watched, -⟩ := run
      have left : runOn (Eval.leaveCall name m.state.frames.size) m₁ = (.ok (), { m₁ with state := m₁.state.dropTop.popCall }) :=
        runOn_leaveCall_of_control trail.control.1 (rfl : m.state.stack.headD .global = m.state.top) trail.control.2
      simp only [left]
      exact ⟨log, .call name may trail, watched, nofun⟩

theorem compute {x : Node → Eval σ Value} (r : ThunkRef) (h : ∀ n, Trails ctx true (x n)) :
    Trails ctx false (Eval.compute r x) := by
  intro m
  rw [runOn_compute]
  dsimp only
  cases phase : (m.state.memory.thunk r).phase with
  | forced v => exact ⟨[], .calm (.refl _), rfl, nofun⟩
  | forcing => exact ⟨[], .here, rfl, nofun⟩
  | pending =>
    have run := h (m.state.memory.thunk r).expression
      { m with state := (m.state.setPhase r .forcing).reenter (m.state.memory.thunk r).home }
    dsimp only
    generalize runOn (x (m.state.memory.thunk r).expression) _ = outcome at run ⊢
    obtain ⟨⟨i⟩ | ⟨v⟩, m₁⟩ := outcome
    · obtain ⟨log, stopped, watched, opens⟩ := run
      exact ⟨log, .thunk phase (opens rfl) stopped, watched, nofun⟩
    · obtain ⟨log, trail, watched, opens⟩ := run
      have fine : m₁.state.popFault? (m.state.memory.thunk r).home.number = none := State.popFault?_eq_none trail.control.1
      simp only [fine]
      exact ⟨log, .thunk v phase (opens rfl) trail, watched, nofun⟩

/-- Leaving a trail passes through every construct. Calls have frames of their own, so that
    no block and no loop has the frame of a call. -/
theorem lockstep (ctx : Context σ) :
    Lockstep ctx ctx (· = ·) (fun x _ => Trails ctx false x) (fun x _ => Trails ctx true x)
      fun tag => ∀ f, tag ≠ .call f where
  strategy := rfl
  pure := pure
  bind := bind
  fail e := stop (.error e)
  stray _ _ := bind state fun _ => stop _
  read h := bind state fun s => h s s (.refl s)
  sameValues v w := bind state fun s => by
    cases s.memory.same? v w with
    | none => exact stop _
    | some same => exact pure same
  newArray elements := allocate (fun _ => rfl) fun m => .newArray m elements
  newClosure _ _ _ := allocate (fun _ => rfl) fun _ => .still rfl
  delay n := bind state fun s => bind (modifyGet fun t => .newThunk t n s.top) fun _ => pure _
  setElement r i v _ := modify fun s => .arrays s rfl (.setElement s.memory r i v)
  write _ := modify fun _ => .still rfl rfl rfl rfl rfl rfl rfl
  declare _ _ _ _ := attempt fun s => .bind s _ _ _
  declareGlobal _ _ _ _ := attempt fun s => .bind s _ _ _
  redefine _ _ _ := modify fun s => .bind s _ _ _
  assign _ _ _ := attempt fun s => .store s _ _
  block := nofun
  loop := nofun
  inFrame := inFrame
  inCall := inCall
  compute := compute
  bracket := bracket
  after := bind
  quit := stop _
  forget := forget
  fuels_zero h := .inl h.symm
  fuels_succ h := ⟨_, h.symm, rfl⟩

end Trails
end Eval

/-! ## Tasks -/

/-- How a task ends. -/
def Task.result (t : Task) (s : State) : Except Interrupt Value :=
  (Eval.execute ⟨t.settings, t.observer⟩ t.fuel t.program ⟨s, t.watch⟩).1

/-- The events of a task, with the states in which its observer is shown them. -/
def Task.log (t : Task) (s : State) : Log := (t.run s).1.filterMap fun u => u.lastEvent.map (·, u)

/-- A log can be read off the states in which its events are shown. -/
theorem Log.ofStates {log : Log} (events : ∀ entry ∈ log, entry.2.lastEvent = some entry.1) :
    (log.map (·.2)).filterMap (fun u => u.lastEvent.map (·, u)) = log := by
  induction log with
  | nil => rfl
  | cons entry rest ih =>
    obtain ⟨first, others⟩ := List.forall_mem_cons.mp events
    rw [List.map_cons, List.filterMap_cons, first, ih others]
    rfl

/-- A task is run as its program is under the observer that keeps the states. -/
theorem Task.ran (t : Task) (s : State) : ∃ m,
    Eval.runOn (Eval.program ⟨t.settings, t.observer.keeping⟩ (Eval.visitor ⟨t.settings, t.observer.keeping⟩ t.fuel) t.program)
      ⟨s.beginEvaluation, (t.watch, [])⟩ = (t.result s, m) ∧
    t.run s = (m.watch.2.reverse, Eval.settle (t.result s) m.state) ∧
    (Eval.execute ⟨t.settings, t.observer⟩ t.fuel t.program ⟨s, t.watch⟩).2.watch = m.watch.1 := by
  obtain ⟨seen, kept⟩ := Eval.execute_keeping ⟨t.settings, t.observer⟩ t.fuel t.program s t.watch []
  have executed := Eval.execute_eq ⟨t.settings, t.observer.keeping⟩ t.fuel t.program ⟨s, (t.watch, [])⟩
  dsimp only at executed
  generalize Eval.runOn (Eval.program _ _ t.program) _ = outcome at executed ⊢
  obtain ⟨result, m⟩ := outcome
  have same := kept.symm.trans executed
  simp only [Prod.mk.injEq, Machine.mk.injEq] at same
  obtain ⟨rfl, -, watched⟩ := same
  refine ⟨m, rfl, ?_, (congrArg Prod.fst watched)⟩
  show (_, _) = _
  rw [executed]
  rfl

/-- An observer is shown the log of its task, and a task that ends well leaves a trail between
    the two events of its program, from the state in which an evaluation begins. -/
theorem Task.trails (t : Task) (s : State) : (t.run s).1 = (t.log s).map (·.2) ∧
    (Eval.execute ⟨t.settings, t.observer⟩ t.fuel t.program ⟨s, t.watch⟩).2.watch = t.observer.shown t.watch (t.log s) ∧
    match t.result s with
    | .ok _ => ∃ log s₁, s.beginEvaluation.MayStep t.settings ∧
        Trail t.settings (s.beginEvaluation.entering t.program.summary) log s₁ ∧
        (t.run s).2 = s₁.leaving t.program.summary ∧
        t.log s = (.enter t.program.summary, s.beginEvaluation.entering t.program.summary) ::
          (log ++ [(.exit t.program.summary, s₁.leaving t.program.summary)])
    | .error i => ∃ s', Trail.CutShort t.settings t.program.summary s.beginEvaluation (t.log s) s' ∧
        (t.run s).2 = Eval.settle (.error i) s' := by
  let ctx : Context (t.memory × List State) := ⟨t.settings, t.observer.keeping⟩
  have run := Eval.Trails.visiting t.program.summary
    ((Eval.Trails.lockstep ctx).inside (rfl : t.fuel = t.fuel) t.program rfl) ⟨s.beginEvaluation, (t.watch, [])⟩
  obtain ⟨m, ran, left, watch⟩ := t.ran s
  rw [← Eval.program_eq, ran] at run
  -- what was kept of the log is the states of its entries
  have recorded (log : Log) (events : ∀ entry ∈ log, entry.2.lastEvent = some entry.1)
      (watched : m.watch = t.observer.keeping.shown (t.watch, []) log) : t.log s = log ∧
      (t.run s).1 = log.map (·.2) ∧
      (Eval.execute ⟨t.settings, t.observer⟩ t.fuel t.program ⟨s, t.watch⟩).2.watch = t.observer.shown t.watch log := by
    rw [Observer.shown_keeping] at watched
    have seen : (t.run s).1 = log.map (·.2) := by
      rw [left]
      simp [watched]
    exact ⟨by rw [Task.log, seen, Log.ofStates events], seen, by rw [watch, watched]⟩
  generalize t.result s = result at run left ⊢
  cases result with
  | error i =>
    obtain ⟨log, cut, watched⟩ := run
    obtain ⟨rfl, seen, shown⟩ := recorded log cut.stopped.events watched
    exact ⟨seen, shown, m.state, cut, by rw [left]⟩
  | ok v =>
    obtain ⟨log, s₁, may, trail, ended, watched⟩ := run
    obtain ⟨whole, seen, shown⟩ := recorded _ (Trail.visit t.program.summary may trail).events watched
    rw [whole]
    exact ⟨seen, shown, log, s₁, may, trail, by rw [left]; exact ended, rfl⟩

/-- However a task ends, its events are those of an evaluation that has come so far. -/
theorem Task.stopped (t : Task) (s : State) : ∃ s', Trail.Stopped t.settings s.beginEvaluation (t.log s) s' := by
  obtain ⟨-, -, trails⟩ := t.trails s
  generalize t.result s = result at trails
  cases result with
  | ok v =>
    obtain ⟨log, s₁, may, trail, -, whole⟩ := trails
    rw [whole]
    exact ⟨_, by simpa using Trail.Stopped.after (.visit t.program.summary may trail) .here⟩
  | error i =>
    obtain ⟨s', cut, -⟩ := trails
    exact ⟨s', cut.stopped⟩

/-- The events of a task lie between its start and its end in the order of a relation that
    trails respect. -/
theorem Task.along (t : Task) (s : State) {R : State → State → Prop} (respected : Trail.Respected R)
    (begins : R s s.beginEvaluation) (recovers : ∀ (s : State) e, R s (s.recover e)) :
    (t.log s).Along R s (t.run s).2 := by
  obtain ⟨-, -, trails⟩ := t.trails s
  generalize t.result s = result at trails
  cases result with
  | ok v =>
    obtain ⟨log, s₁, may, trail, left, whole⟩ := trails
    rw [whole, left]
    exact .around respected.trans begins ((Trail.visit t.program.summary may trail).along respected) (respected.refl _)
  | error i =>
    obtain ⟨s', cut, left⟩ := trails
    have stopped := cut.stopped.along respected
    rw [left]
    cases i with
    | error e => exact .around respected.trans begins stopped (recovers s' e)
    | _ => exact .around respected.trans begins stopped (respected.refl _)

/-- However a task ends, nothing is lost by it. -/
theorem Task.lasts (t : Task) (s : State) : s.Lasts (t.run s).2 := by
  obtain ⟨-, -, trails⟩ := t.trails s
  have begins := State.Lasts.beginEvaluation s
  generalize t.result s = result at trails
  cases result with
  | ok v =>
    obtain ⟨log, s₁, may, trail, left, -⟩ := trails
    rw [left]
    exact begins.trans (Trail.visit t.program.summary may trail).lasts
  | error i =>
    obtain ⟨s', cut, left⟩ := trails
    have stopped := begins.trans cut.stopped.lasts
    rw [left]
    cases i with
    | error e => exact stopped.trans (.recover s' e)
    | _ => exact stopped

theorem State.lasts_after (s : State) (tasks : List Task) : s.Lasts (s.after tasks) := by
  induction tasks generalizing s with
  | nil => exact .refl s
  | cons t rest ih => exact (t.lasts s).trans (ih (t.run s).2)

end MiniC
