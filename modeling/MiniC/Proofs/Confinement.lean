import MiniC.Proofs.Life
import MiniC.Proofs.Runs

/-!
# Thunks stay in their frames

A thunk is bound in the frame that it was put off in, and nowhere else: whatever is passed on,
stored or remembered has been computed before. So a frame takes its thunks with it when it is
given up, and a thunk that is computed still finds its frame on the chain, with all names that
it had when the thunk was bound there (`State.thunks_confined`).
-/

namespace MiniC
variable {σ : Type}

namespace State

/-- A thunk that is being computed has its frame at work for that, and the frame was on the
    chain before. -/
def Nested (s : State) : Prop := ∀ t, s.Forcing t → ∃ above below,
  s.stack = above ++ (s.memory.thunk t).home :: below ∧ (s.memory.thunk t).home ∈ below ++ [FrameRef.global]

/-- Thunks are bound in their own frames and held nowhere else; a name that is bound to one
    is seen only while the frame is on the chain, and so is a thunk computed. -/
structure Confined (s : State) : Prop where
  bindings (r : FrameRef) : ∀ b ∈ (s.frame r).bindings, ∀ t, b.2.value = .lazy t →
    t.index < s.memory.thunks.size ∧ (s.memory.thunk t).home = r
  elements (r : ArrayRef) : ∀ v ∈ s.memory.elements r, v.Plain
  memos (t : ThunkRef) : ∀ v, (s.memory.thunk t).memo? = some v → v.Plain
  seen (name : String) (span : Option Span) (b : Binding) (t : ThunkRef) : s.lookup name span = .ok b →
    b.value = .lazy t → (s.memory.thunk t).home ∈ s.chain
  nested : s.Nested

/-- From a state on, whatever is passed to functions, comes back from them or is stored is no
    thunk; and a node that yields a thunk does so while the frame of the thunk is on the chain. -/
structure Passing (s : State) (ctx : Context σ) (fuel : Nat) (w : σ) : Prop where
  arguments (nodes : List Node) (vs : List Value) (m : Machine σ) :
    Eval.runOn ((Eval.visitor ctx fuel).actuals nodes) ⟨s, w⟩ = (.ok vs, m) → ∀ v ∈ vs, v.Plain
  results (callee : Node) (nodes : List Node) (span : Option Span) (v : Value) (m : Machine σ) :
    Eval.runOn ((Eval.visitor ctx fuel).call ctx.settings.maxCallDepth callee nodes span) ⟨s, w⟩ = (.ok v, m) → v.Plain
  assigned (op : AssignOp) (left right : Node) (span : Option Span) (v : Value) (m : Machine σ) :
    Eval.runOn ((Eval.visitor ctx fuel).assign op left right span) ⟨s, w⟩ = (.ok v, m) → v.Plain
  stepped (op : UpdateOp) (argument : Node) (before : Bool) (span : Option Span) (v : Value) (m : Machine σ) :
    Eval.runOn ((Eval.visitor ctx fuel).step op argument before span) ⟨s, w⟩ = (.ok v, m) → v.Plain
  yields (n : Node) (tag : FrameTag) (t : ThunkRef) (m : Machine σ) :
    Eval.runOn ((Eval.visitor ctx fuel).visit n tag) ⟨s, w⟩ = (.ok (.normal (.lazy t)), m) →
      t.index < m.state.memory.thunks.size ∧ (m.state.memory.thunk t).home ∈ m.state.chain
  returns (n : Node) (tag : FrameTag) (v : Value) (m : Machine σ) :
    Eval.runOn ((Eval.visitor ctx fuel).visit n tag) ⟨s, w⟩ = (.ok (.returned v), m) → v.Plain

end State

/-! ## Thunks at work -/

section nested
variable {law : Form → Bool} {settings : Settings} {b : Bool} {s s' : State} {past log : Log}

/-- A thunk whose computation has ended is being computed no more. -/
theorem State.forcing_of_setPhase {t q : ThunkRef} {phase : Phase} (ended : phase ≠ .forcing)
    (forcing : (s.setPhase t phase).Forcing q) : q ≠ t ∧ s.Forcing q := by
  unfold State.Forcing State.setPhase at forcing
  rw [Memory.thunk_setPhase] at forcing
  split at forcing
  · exact absurd forcing ended
  · rename_i apart
    refine ⟨?_, forcing⟩
    rintro rfl
    exact apart ⟨rfl, Memory.lt_of_phase fun v forced => nomatch forcing.symm.trans forced⟩

theorem State.forcing_of_computing {t q : ThunkRef} (other : q ≠ t) (forcing : (s.computing t).Forcing q) : s.Forcing q := by
  rwa [State.Forcing, thunk_computing_of_ne other] at forcing

/-- Where a stack grows and no other thunks are computed than before, theirs are still at work. -/
theorem State.Nested.grow (h : s.Nested) (leads : s.Leads s') (above : List FrameRef)
    (stack : s'.stack = above ++ s.stack) (fewer : ∀ t, s'.Forcing t → s.Forcing t) : s'.Nested := by
  intro t forcing
  have inside : t.index < s.memory.thunks.size := Memory.lt_of_phase fun v forced => by
    have := fewer t forcing
    rw [State.Forcing, forced] at this
    cases this
  obtain ⟨upper, below, split, member⟩ := h t (fewer t forcing)
  rw [(leads.thunks t inside).2, stack, split]
  exact ⟨above ++ upper, below, (List.append_assoc above upper _).symm, member⟩

/-- A thunk that is seen in the scope is computed in its own frame. -/
theorem State.Nested.computing (h : s.Nested) (L : s.Lexical) {t : ThunkRef} (seen : (s.memory.thunk t).home ∈ s.scope) :
    (s.computing t).Nested := by
  intro q forcing
  have home : ((s.computing t).memory.thunk q).home = (s.memory.thunk q).home := by
    show ((s.memory.setPhase t .forcing).thunk q).home = _
    rw [Memory.thunk_setPhase]
    split <;> rfl
  rw [home]
  show ∃ above below, (s.memory.thunk t).home :: s.stack = _ ∧ _
  by_cases same : q = t
  · rw [same]
    exact ⟨[], s.stack, rfl, L.mem_chain_of_mem_scope seen⟩
  · obtain ⟨above, below, split, member⟩ := h q (forcing_of_computing same forcing)
    exact ⟨_ :: above, below, by rw [split]; rfl, member⟩

theorem Act.forcing (action : Act law settings b past s s') {t : ThunkRef} (forcing : s'.Forcing t) : s.Forcing t := by
  cases action with
  | @delay _ _ _ _ _ initial kind put permitted among given code =>
    unfold State.Forcing at forcing ⊢
    dsimp only at forcing
    have inside := Memory.lt_of_phase fun v forced => nomatch forcing.symm.trans forced
    rcases Memory.thunk_newThunk_of_lt inside with ⟨-, old⟩ | ⟨-, new⟩
    · rwa [old] at forcing
    · rw [new] at forcing
      cases forcing
  | write | newArray | newClosure => exact forcing
  | declare | declareLazy | declareFunction => simpa [State.Forcing] using forcing
  | declareArray =>
    rw [State.Forcing, State.bind_memory] at forcing
    exact forcing

/-- A passage leaves no more thunks being computed than there were, and where events show one
    it is at work. -/
theorem Passage.nested (passage : Passage law settings b past s log s') (h : s.Proper law past) (nested : s.Nested) :
    (∀ entry ∈ log, entry.2.Nested) ∧ ∀ t, s'.Forcing t → s.Forcing t := by
  induction passage with
  | nil => exact ⟨List.forall_mem_nil _, fun _ => id⟩
  | append first second ih ih' =>
    obtain ⟨all, fewer⟩ := ih h nested
    obtain ⟨all', fewer'⟩ := ih' (first.proper h) (nested.grow (first.leads h).whole [] first.control.1 fewer)
    exact ⟨List.forall_mem_append.mpr ⟨all, all'⟩, fun t forcing => fewer t (fewer' t forcing)⟩
  | calm inner ih => exact ih h nested
  | act action => exact ⟨List.forall_mem_nil _, fun _ => action.forcing⟩
  | @visit _ _ s s₁ log n may inner ih =>
    have entered : (s.entering n).Nested := nested.grow (s.leads_entering n) [] rfl fun _ => id
    obtain ⟨all, fewer⟩ := ih (h.entering n) entered
    have left : (s₁.leaving n).Nested :=
      entered.grow ((inner.leads (h.entering n)).whole.trans (s₁.leads_leaving n)) [] inner.control.1 fewer
    exact ⟨Log.forall_around.mpr ⟨entered, all, left⟩, fewer⟩
  | @frame _ _ _ s s₁ log tag inner ih =>
    have pushed : (s.push tag).2.Nested := nested.grow (.pushInside tag s.top rfl rfl rfl rfl) [_] rfl fun _ => id
    obtain ⟨all, fewer⟩ := ih (h.pushInside tag (.inl rfl)) pushed
    exact ⟨all, fun t forcing => fewer t (by simpa [State.Forcing] using forcing)⟩
  | @call _ _ _ s s₁ log name may inner ih =>
    have called : (s.calling name).Nested := nested.grow (s.leads_calling name) [_] rfl fun _ => id
    obtain ⟨all, fewer⟩ := ih (h.calling name) called
    exact ⟨all, fun t forcing => fewer t (by simpa [State.Forcing, State.popCall] using forcing)⟩
  | @thunk _ _ s s₁ log t v waits seen inner settled fits ih =>
    obtain ⟨all, fewer⟩ := ih (h.computing seen) (nested.computing h.lexical seen)
    refine ⟨all, fun q forcing => ?_⟩
    obtain ⟨other, before⟩ := State.forcing_of_setPhase (by simp : Phase.forced v ≠ .forcing) forcing
    refine State.forcing_of_computing other (fewer q ?_)
    simpa [State.Forcing] using before
  | @store _ _ _ s₁ log name span old v found inner between bound settled fits ih =>
    obtain ⟨all, fewer⟩ := ih h nested
    exact ⟨all, fun t forcing => fewer t (by simpa [State.Forcing] using forcing)⟩
  | storeElement inner settled ih => exact ih h nested

/-- Where events show a thunk that is being computed, it is at work. -/
theorem Broken.nested (broken : Broken law settings past s log s') (h : s.Proper law past) (nested : s.Nested) :
    ∀ entry ∈ log, entry.2.Nested := by
  induction broken with
  | here | refused => exact List.forall_mem_nil _
  | after first second ih =>
    obtain ⟨all, fewer⟩ := first.nested h nested
    have on := ih (first.proper h) (nested.grow (first.leads h).whole [] first.control.1 fewer)
    exact List.forall_mem_append.mpr ⟨all, on⟩
  | @visit _ s _ _ n may inner ih =>
    have entered : (s.entering n).Nested := nested.grow (s.leads_entering n) [] rfl fun _ => id
    exact List.forall_mem_cons.mpr ⟨entered, ih (h.entering n) entered⟩
  | frame tag inner ih =>
    exact ih (h.pushInside tag (.inl rfl)) (nested.grow (.pushInside tag _ rfl rfl rfl rfl) [_] rfl fun _ => id)
  | @call _ s _ _ name may inner ih =>
    exact ih (h.calling name) (nested.grow (s.leads_calling name) [_] rfl fun _ => id)
  | thunk waits seen inner ih => exact ih (h.computing seen) (nested.computing h.lexical seen)

/-- So it is in a run that begins while no thunk is being computed. -/
theorem Run.nested (run : Run law settings past s log s') (h : s.Proper law past) (quiet : ∀ t, ¬ s.Forcing t) :
    ∀ entry ∈ log, entry.2.Nested := by
  have begun : s.beginEvaluation.Nested := fun t forcing => absurd (by simpa [State.Forcing] using forcing) (quiet t)
  cases run with
  | done passage => exact (passage.nested h.beginEvaluation begun).1
  | stopped broken | failed e broken => exact broken.nested h.beginEvaluation begun

/-! ## Without thunks -/

/-- The second state has as many thunks as the first. -/
def State.Equals (s s' : State) : Prop := s'.memory.thunks.size = s.memory.thunks.size

theorem State.Equals.trans {s₁ s₂ : State} (h : s.Equals s₁) (h' : s₁.Equals s₂) : s.Equals s₂ := Eq.trans h' h

theorem Act.equals (action : Act law settings b past s s') (strict : settings.strategy = .strict) : s.Equals s' := by
  cases action with
  | delay kind put => exact nomatch strict.symm.trans put
  | write | newArray | newClosure => rfl
  | declare | declareLazy | declareFunction => simp [State.Equals]
  | declareArray =>
    rw [State.Equals, State.bind_memory]
    rfl

/-- Under the strict strategy no thunk is made. -/
theorem State.equals_respected (strict : settings.strategy = .strict) : Respected law settings State.Equals where
  refl _ := rfl
  trans := .trans
  act _ action := action.equals strict
  count _ _ := rfl
  entering _ _ := rfl
  leaving _ _ := rfl
  push _ _ := rfl
  calling _ _ := rfl
  computing _ _ := by simp [Equals, computing, setPhase, reenter]
  dropTop _ := by simp [Equals]
  popCall _ := rfl
  setPhase s t phase := by simp [Equals, setPhase]
  store s name v := by simp [Equals]
  setElement _ _ _ _ := rfl

end nested

/-! ## Histories -/

section histories
variable {law : Form → Bool} {s : State} {past : Log}

/-- A frame that binds something exists. -/
theorem State.inside_of_bound (whole : s.detached.size = 0) {r : FrameRef}
    {b : String × Binding} (bound : b ∈ (s.frame r).bindings) : ∃ n < s.frames.size, r = .numbered n := by
  cases r with
  | numbered n =>
    refine ⟨n, Nat.lt_of_not_le fun outside => ?_, rfl⟩
    rw [frame_outside outside] at bound
    cases bound
  | detached k =>
    have none : s.detached[k]? = none := Array.getElem?_eq_none (by omega)
    rw [State.frame, Array.getD_eq_getD_getElem?, none] at bound
    cases bound

/-- A state without detached frames in which thunks are at work confines its thunks. -/
theorem State.Proper.confined (h : s.Proper law past) (whole : s.detached.size = 0) (nested : s.Nested) : s.Confined where
  bindings r b member := by
    obtain ⟨n, -, rfl⟩ := inside_of_bound whole member
    exact h.bindings n b member
  elements := h.arrays
  memos t v memo := h.memos t v (by
    unfold Thunk.memo? at memo
    split at memo
    · rename_i forced
      cases memo
      exact forced
    · cases memo)
  seen name span b t found lazy := by
    obtain ⟨r, member, own⟩ := h.lexical.held_lookup found
    rw [(own t lazy).2]
    exact h.lexical.mem_chain_of_mem_scope member
  nested := nested

/-- The visit of a node makes a passage. -/
theorem State.Proper.visits (h : s.Proper (fun _ => true) past) {ctx : Context σ} {fuel : Nat} {w : σ} {n : Node}
    {tag : FrameTag} {c : Completion} {m : Machine σ}
    (ran : Eval.runOn ((Eval.visitor ctx fuel).visit n tag) ⟨s, w⟩ = (.ok c, m)) :
    ∃ log, Passage (fun _ => true) ctx.settings true past s log m.state ∧ c.Allowed (fun _ => true) (past ++ log) m.state := by
  have V : Eval.TracesVisits (fun _ => true) ctx (Eval.visitor ctx fuel) := Eval.Traces.visit lenient_true fuel
  have done := Eval.Traces.visited V (.inside (n.all_of_forall fun _ => rfl)) tag past ⟨s, w⟩ h trivial
  rw [ran] at done
  obtain ⟨log, passage, -, allowed⟩ := done
  exact ⟨log, passage, allowed⟩

/-- What passes in an evaluation has been computed. -/
theorem State.Proper.passing (h : s.Proper (fun _ => true) past) (ctx : Context σ) (fuel : Nat) (w : σ) :
    s.Passing ctx fuel w := by
  have V : Eval.TracesVisits (fun _ => true) ctx (Eval.visitor ctx fuel) := Eval.Traces.visit lenient_true fuel
  have part (n : Node) : Part (fun _ => true) true n := .inside (n.all_of_forall fun _ => rfl)
  have settled {x : Eval σ Value} (traces : Eval.Traces (fun _ => true) ctx true Eval.Always x
      fun past _ v => v.Settled (fun _ => true) past) (v : Value) (m : Machine σ) (ran : Eval.runOn x ⟨s, w⟩ = (.ok v, m)) :
      v.Plain := by
    have done := traces past ⟨s, w⟩ h trivial
    rw [ran] at done
    obtain ⟨log, -, -, kept⟩ := done
    exact kept.plain
  refine ⟨fun nodes vs m ran => ?_, fun callee nodes span => settled (Eval.Traces.call V (fun n _ => part n) span),
    fun op left right span => settled (Eval.Traces.assignment V rfl (fun c _ => part c) (part right) span),
    fun op argument before span => settled (Eval.Traces.step V (fun c _ => part c) span),
    fun n tag t m ran => ?_, fun n tag v m ran => ?_⟩
  · have done := Eval.Traces.actuals V (fun n (_ : n ∈ nodes) => part n) past ⟨s, w⟩ h trivial
    rw [ran] at done
    obtain ⟨log, -, -, kept⟩ := done
    exact fun v member => (kept v member).plain
  · obtain ⟨log, passage, yields⟩ := h.visits ran
    obtain ⟨r, member, own⟩ := yields.held
    obtain ⟨inside, home⟩ := own t rfl
    exact ⟨inside, home ▸ (passage.proper h).lexical.mem_chain_of_mem_scope member⟩
  · obtain ⟨log, -, kept⟩ := h.visits ran
    exact kept.plain

/-- In a history that begins while no thunk is being computed, those that are are at work. -/
theorem State.Proper.history_nested (h : s.Proper (fun _ => true) past) (quiet : ∀ t, ¬ s.Forcing t) (tasks : List Task) :
    ∀ s' ∈ s.history tasks, s'.Nested := by
  have rests {s : State} (quiet : ∀ t, ¬ s.Forcing t) : s.Nested := fun t forcing => absurd forcing (quiet t)
  induction tasks generalizing s past with
  | nil => exact List.forall_mem_singleton.mpr (rests quiet)
  | cons t rest ih =>
    obtain ⟨log, run, shown⟩ := t.run_passes lenient_true (fun n _ => n.all_of_forall fun _ => rfl) h
    have still (q : ThunkRef) : ¬ (t.run s).2.Forcing q := by
      rw [(t.courses s).forcing]
      exact quiet q
    refine List.forall_mem_cons.mpr ⟨rests quiet, List.forall_mem_append.mpr ⟨?_, ih (run.proper h) still⟩⟩
    rw [shown, List.forall_mem_map]
    exact run.nested h quiet

end histories

/-- Thunks stay in their frames, whatever programs are run one after the other, under any
    settings and observers: at every point of the history the state confines its thunks, and
    no evaluation from there passes on or stores one. A thunk that is computed finds its frame
    on the chain, with all names that the frame had at any earlier point at which the thunk was
    bound there. Under the strict strategy there is no thunk at all. -/
theorem State.thunks_confined (tasks : List Task) :
    (∀ s ∈ seeded.history tasks, s.Confined ∧
      ∀ {σ : Type} (ctx : Context σ) (fuel : Nat) (w : σ), s.Passing ctx fuel w) ∧
    ((seeded.history tasks).Pairwise fun s s' => ∀ r, ∀ b ∈ (s.frame r).bindings, ∀ t, b.2.value = .lazy t →
      s'.Forcing t → r ∈ s'.chain ∧ ∀ name, (s.get? r name).isSome = true → (s'.get? r name).isSome = true) ∧
    ((∀ t ∈ tasks, t.settings.strategy = .strict) → ∀ s ∈ seeded.history tasks,
      s.memory.thunks.size = 0 ∧ (∀ r, ∀ b ∈ (s.frame r).bindings, b.2.value.Plain) ∧
      ∀ {σ : Type} (ctx : Context σ) (fuel : Nat) (w : σ) (n : Node) (tag : FrameTag) (v : Value) (m : Machine σ),
        ctx.settings.strategy = .strict →
        Eval.runOn ((Eval.visitor ctx fuel).visit n tag) ⟨s, w⟩ = (.ok (.normal v), m) → v.Plain) := by
  have start := proper_seeded fun _ => true
  have code : Permitted (fun _ => true) tasks := fun t _ n _ => n.all_of_forall fun _ => rfl
  have quiet (t : ThunkRef) : ¬ seeded.Forcing t := by
    rw [Forcing, Memory.thunk_of_le (Nat.zero_le _)]
    rintro ⟨⟩
  obtain ⟨onward, pairs⟩ := start.history_along lenient_true code (R := Leads) (fun _ _ => leads_respected) (.refl _) .trans
    leads_beginEvaluation leads_recover
  have proper := start.history lenient_true code
  have nested := start.history_nested quiet tasks
  have confined (s : State) (member : s ∈ seeded.history tasks) : s.Confined := by
    obtain ⟨past, h⟩ := proper s member
    exact h.confined (onward s member).detached (nested s member)
  refine ⟨fun s member => ⟨confined s member, fun ctx fuel w => ?_⟩, ?_, fun strict s member => ?_⟩
  · obtain ⟨past, h⟩ := proper s member
    exact h.passing ctx fuel w
  · refine pairs.imp_of_mem fun {s s'} member member' leads r b bound t lazy forcing => ?_
    obtain ⟨inside, home⟩ := (confined s member).bindings r b bound t lazy
    obtain ⟨n, exists_n, rfl⟩ := inside_of_bound (onward s member).detached bound
    obtain ⟨above, below, split, among⟩ := nested s' member' t forcing
    rw [(leads.thunks t inside).2, home] at split
    have held : FrameRef.numbered n ∈ s'.chain := by
      rw [chain, split]
      simp
    exact ⟨held, (leads.held n exists_n held).2⟩
  · have none : s.memory.thunks.size = 0 := by
      have equals := start.history_along lenient_true code (R := Equals) (fun t among => equals_respected (strict t among)) rfl
        .trans (fun s => by simp [Equals]) fun s e => by simp [Equals]
      exact equals.1 s member
    have plain {v : Value} {s : State} {r : FrameRef} (none : s.memory.thunks.size = 0) (own : s.Own r v) : v.Plain :=
      Value.plain_of_ne fun t lazy => Nat.not_lt_zero t.index (none ▸ (own t lazy).1)
    refine ⟨none, fun r b bound => plain none ((confined s member).bindings r b bound), ?_⟩
    intro σ ctx fuel w n tag v m strict ran
    obtain ⟨past, h⟩ := proper s member
    obtain ⟨log, passage, yields⟩ := h.visits ran
    obtain ⟨r, -, own⟩ := yields.held
    have same : m.state.memory.thunks.size = s.memory.thunks.size := (passage.along (equals_respected strict) h).whole
    exact plain (same.trans none) own

/-- A thunk that is computed inside a block has its frame on the chain still. -/
theorem State.thunk_in_block :
    let reading : Task := ⟨{ strategy := .lazy }, .silent, (), 20,
      ⟨[Tree.block [Tree.var "int" "x" (some (Tree.num 1.0)), Tree.block [Tree.expr (Tree.ident "x")]]], none⟩⟩
    ∃ s ∈ seeded.history [reading], s.Forcing ⟨0⟩ ∧ s.Nested ∧ (s.memory.thunk ⟨0⟩).home = .numbered 1 := by
  intro reading
  have seen : (seeded.history [reading]).any (fun s => decide ((s.memory.thunk ⟨0⟩).home = .numbered 1) &&
      match (s.memory.thunk ⟨0⟩).phase with | .forcing => true | _ => false) = true := by decide +kernel
  obtain ⟨s, member, holds⟩ := List.any_eq_true.mp seen
  rw [Bool.and_eq_true, decide_eq_true_eq] at holds
  refine ⟨s, member, ?_, ((thunks_confined [reading]).1 s member).1.nested, holds.1⟩
  have forcing := holds.2
  unfold Forcing
  split at forcing
  · assumption
  · cases forcing

end MiniC
