import Mathlib.Data.List.Chain
import MiniC.Proofs.Balance
import MiniC.Proofs.History

/-!
# The life of a thunk

A thunk waits, is being computed, and then has a value for good, or waits again if its
computation was cut short. Between two points of a history it takes at most one of these
steps, and at rest no thunk is being computed: every way out of a computation, by an error
or by an observer that halts, puts the thunk back.
-/

namespace MiniC
variable {σ α β : Type}

/-! ## Phases -/

/-- The steps that a thunk takes. -/
inductive Phase.Moves : Phase → Phase → Prop
  | start : Moves .pending .forcing
  | finish (v : Value) : Moves .forcing (.forced v)
  | giveUp : Moves .forcing .pending

namespace State

/-- Where a thunk stands, if it has been made. -/
def phase? (s : State) (t : ThunkRef) : Option Phase :=
  if t.index < s.memory.thunks.size then some (s.memory.thunk t).phase else none

/-- From one point of a history to the next no thunk is lost, each keeps its expression
    and its frame and takes at most one step, and a fresh one has no value yet. -/
structure Advances (s s' : State) : Prop where
  kept (t : ThunkRef) : t.index < s.memory.thunks.size → t.index < s'.memory.thunks.size ∧
    (s'.memory.thunk t).expression = (s.memory.thunk t).expression ∧
    (s'.memory.thunk t).home = (s.memory.thunk t).home
  steps (t : ThunkRef) (a : Phase) : s.phase? t = some a →
    s'.phase? t = some a ∨ ∃ b, a.Moves b ∧ s'.phase? t = some b
  fresh (t : ThunkRef) (v : Value) : s.phase? t = none → s'.phase? t ≠ some (.forced v)

/-! ## Changes of phases -/

/-- The thunks of one state go over to those of another, their phases as a relation says. -/
structure Passes (M : Option Phase → Option Phase → Prop) (s s' : State) : Prop where
  kept (t : ThunkRef) : t.index < s.memory.thunks.size → t.index < s'.memory.thunks.size ∧
    (s'.memory.thunk t).expression = (s.memory.thunk t).expression ∧
    (s'.memory.thunk t).home = (s.memory.thunk t).home
  moves (t : ThunkRef) : M (s.phase? t) (s'.phase? t)

end State

namespace Phase

/-- Nothing happens to a thunk but that it is made. -/
def Rests (a b : Option Phase) : Prop := b = a ∨ (a = none ∧ b = some .pending)

/-- What happens up to an event: the computation of thunks may have begun. -/
def Opens (a b : Option Phase) : Prop :=
  Rests a b ∨ (b = some .forcing ∧ (a = none ∨ a = some .pending))

/-- What happens after an event: the computation of thunks may have been completed. -/
def Closes (a b : Option Phase) : Prop := Rests a b ∨ (a = some .forcing ∧ ∃ v, b = some (.forced v))

/-- What happens after an event if the evaluation is cut short. -/
def Drops (a b : Option Phase) : Prop := Closes a b ∨ (a = some .forcing ∧ b = some .pending)

/-- What happens from one event to the next. -/
def Turns (a b : Option Phase) : Prop := Closes a b ∨ Opens a b

variable {a b c : Option Phase}

theorem Rests.opens (h : Rests a b) (h' : Opens b c) : Opens a c := by
  unfold Opens Rests at *
  grind

theorem Closes.rests (h : Closes a b) (h' : Rests b c) : Closes a c := by
  unfold Closes Rests at *
  grind

theorem Closes.turns (h : Closes a b) (h' : Opens b c) : Turns a c := by
  unfold Turns Closes Opens Rests at *
  grind

theorem Opens.trans (h : Opens a b) (h' : Opens b c) : Opens a c := by
  unfold Opens Rests at *
  grind

theorem Rests.trans (h : Rests a b) (h' : Rests b c) : Rests a c := by
  unfold Rests at *
  grind

end Phase

namespace State
variable {M N K : Option Phase → Option Phase → Prop} {s s' s'' : State}

theorem phase?_of_lt {t : ThunkRef} (inside : t.index < s.memory.thunks.size) :
    s.phase? t = some (s.memory.thunk t).phase := if_pos inside

theorem lt_of_phase? {t : ThunkRef} {a : Phase} (h : s.phase? t = some a) : t.index < s.memory.thunks.size := by
  unfold phase? at h
  split at h
  · assumption
  · cases h

theorem forcing_iff {t : ThunkRef} : s.Forcing t ↔ s.phase? t = some .forcing := by
  unfold phase? Forcing
  split
  · simp
  · rename_i outside
    simp [Memory.thunk_of_le (Nat.le_of_not_lt outside), default]

theorem phase?_setPhase {r : ThunkRef} (inside : r.index < s.memory.thunks.size) (phase : Phase) (t : ThunkRef) :
    (s.setPhase r phase).phase? t = if t = r then some phase else s.phase? t := by
  unfold phase? setPhase
  by_cases same : t = r
  · subst same
    simp [inside, Memory.thunk_setPhase]
  · simp [same, Memory.thunk_setPhase]

namespace Passes

theorem comp (h : s.Passes M s') (h' : s'.Passes N s'') (mix : ∀ {a b c}, M a b → N b c → K a c) : s.Passes K s'' where
  kept t inside := by
    obtain ⟨inside', expression, home⟩ := h.kept t inside
    obtain ⟨inside'', expression', home'⟩ := h'.kept t inside'
    exact ⟨inside'', expression'.trans expression, home'.trans home⟩
  moves t := mix (h.moves t) (h'.moves t)

theorem weaken (h : s.Passes M s') (le : ∀ {a b}, M a b → N a b) : s.Passes N s' := ⟨h.kept, fun t => le (h.moves t)⟩

/-- Nothing happens to the thunks. -/
theorem of_thunks (same : s'.memory.thunks = s.memory.thunks) : s.Passes Phase.Rests s' where
  kept t inside := by
    simp only [Memory.thunk, same]
    exact ⟨inside, trivial, trivial⟩
  moves t := by
    simp only [phase?, Memory.thunk, same]
    exact .inl rfl

theorem newThunk (s : State) (n : Node) (home : FrameRef) :
    s.Passes Phase.Rests { s with memory := (s.memory.newThunk n home).2 } where
  kept t inside := by
    rw [Memory.thunk_newThunk n home inside, Memory.thunks_newThunk]
    exact ⟨Nat.lt_succ_of_lt inside, rfl, rfl⟩
  moves t := by
    unfold phase?
    by_cases made : t.index < (s.memory.newThunk n home).2.thunks.size
    · rw [if_pos made]
      rcases Memory.thunk_newThunk_of_lt made with ⟨before, old⟩ | ⟨rfl, new⟩
      · rw [if_pos before, old]
        exact .inl rfl
      · rw [if_neg (show ¬ (s.memory.newThunk n home).1.index < s.memory.thunks.size from Nat.lt_irrefl _), new]
        exact .inr ⟨rfl, rfl⟩
    · rw [if_neg made, if_neg fun before => made (by rw [Memory.thunks_newThunk]; omega)]
      exact .inl rfl

theorem setPhase {r : ThunkRef} {phase : Phase} (inside : r.index < s.memory.thunks.size)
    (move : M (s.phase? r) (some phase)) (same : ∀ a, M a a) : s.Passes M (s.setPhase r phase) where
  kept t inside' := by
    refine ⟨by simpa [State.setPhase] using inside', ?_⟩
    show ((s.memory.setPhase r phase).thunk t).expression = _ ∧ ((s.memory.setPhase r phase).thunk t).home = _
    rw [Memory.thunk_setPhase]
    split <;> simp
  moves t := by
    rw [phase?_setPhase inside]
    split
    · rename_i here
      subst here
      exact move
    · exact same _

/-- Only the thunks matter. -/
theorem congr {u u' : State} (h : s.Passes M s') (before : u.memory.thunks = s.memory.thunks)
    (after : u'.memory.thunks = s'.memory.thunks) : u.Passes M u' := by
  have kept := h.kept
  have moves := h.moves
  simp only [Memory.thunk, phase?] at kept moves
  exact ⟨by simpa only [Memory.thunk, before, after] using kept,
    by simpa only [Memory.thunk, phase?, before, after] using moves⟩

end Passes

/-- Whatever may happen between two points of a history. -/
theorem Passes.advances (h : s.Passes M s') (le : ∀ {a b}, M a b → Phase.Turns a b ∨ Phase.Drops a b) : s.Advances s' where
  kept := h.kept
  steps t a here := by
    have move := le (h.moves t)
    rw [here] at move
    unfold Phase.Turns Phase.Drops Phase.Closes Phase.Opens Phase.Rests at move
    simp at move
    rcases move with ((same | ⟨rfl, v, done⟩) | same | ⟨begun, rfl⟩) | (same | ⟨rfl, v, done⟩) | ⟨rfl, again⟩
    · exact .inl same
    · exact .inr ⟨_, .finish v, done⟩
    · exact .inl same
    · exact .inr ⟨_, .start, begun⟩
    · exact .inl same
    · exact .inr ⟨_, .finish v, done⟩
    · exact .inr ⟨_, .giveUp, again⟩
  fresh t v none := by
    have move := le (h.moves t)
    rw [none] at move
    unfold Phase.Turns Phase.Drops Phase.Closes Phase.Opens Phase.Rests at move
    intro found
    rw [found] at move
    simp at move

end State

/-! ## Courses -/

namespace State

/-- From an event on: through the states of further events to the end. -/
def Onward (M : Option Phase → Option Phase → Prop) (s : State) : List State → State → Prop
  | [], s' => s.Passes M s'
  | e :: rest, s' => s.Passes Phase.Turns e ∧ e.Onward M rest s'

/-- From the start of an evaluation through the states of its events to the end. What is
    being computed at the start goes on being computed, and nothing else is at the end. -/
structure Courses (M : Option Phase → Option Phase → Prop) (s : State) (seen : List State) (s' : State) : Prop where
  path : match seen with
    | [] => s.Passes Phase.Rests s'
    | e :: rest => s.Passes Phase.Opens e ∧ e.Onward M rest s'
  still (t : ThunkRef) : s.Forcing t → ∀ e ∈ seen, e.Forcing t
  forcing (t : ThunkRef) : s'.Forcing t ↔ s.Forcing t

variable {M N : Option Phase → Option Phase → Prop} {s s' s'' : State} {seen more : List State}

/-- Whatever the end does to the thunks since the last event, the way there is the same. -/
theorem Onward.last : ∀ {seen : List State} {s : State}, (∀ e ∈ s :: seen, e.Passes M s' → e.Passes N s'') →
    s.Onward M seen s' → s.Onward N seen s''
  | [], s, closes, h => closes s List.mem_cons_self h
  | _ :: _, s, closes, h => ⟨h.1, Onward.last (fun x member => closes x (List.mem_cons_of_mem s member)) h.2⟩

theorem Onward.comp (le : ∀ {a b c}, Phase.Closes a b → Phase.Rests b c → M a c) :
    ∀ {seen : List State} {s : State}, s.Onward Phase.Closes seen s' → s'.Courses M more s'' →
      s.Onward M (seen ++ more) s''
  | e :: rest, s, h, h' => ⟨h.1, Onward.comp le h.2 h'⟩
  | [], s, h, h' => by
    have path := h'.path
    cases more with
    | nil => exact Passes.comp h path le
    | cons e rest => exact ⟨Passes.comp h path.1 Phase.Closes.turns, path.2⟩

namespace Courses

/-- One course after the other. -/
theorem comp (le : ∀ {a b c}, Phase.Closes a b → Phase.Rests b c → M a c) (h : s.Courses Phase.Closes seen s')
    (h' : s'.Courses M more s'') : s.Courses M (seen ++ more) s'' where
  path := by
    have path := h.path
    have path' := h'.path
    cases seen with
    | cons e rest => exact ⟨path.1, path.2.comp le h'⟩
    | nil =>
      cases more with
      | nil => exact path.comp path' Phase.Rests.trans
      | cons e rest => exact ⟨path.comp path'.1 Phase.Rests.opens, path'.2⟩
  still t forcing e member := by
    rcases List.mem_append.mp member with first | second
    · exact h.still t forcing e first
    · exact h'.still t ((h.forcing t).mpr forcing) e second
  forcing t := (h'.forcing t).trans (h.forcing t)

/-- Nothing is announced and nothing is computed. -/
theorem quiet (h : s.Passes Phase.Rests s') : s.Courses M [] s' where
  path := h
  still _ _ := nofun
  forcing t := by
    have move := h.moves t
    rw [forcing_iff, forcing_iff]
    unfold Phase.Rests at move
    grind

theorem of_thunks (same : s'.memory.thunks = s.memory.thunks) : s.Courses M [] s' := quiet (.of_thunks same)

/-- One event, which changes no thunk. -/
theorem announce (rests : ∀ a, M a a) (same : s'.memory.thunks = s.memory.thunks) : s.Courses M [s'] s' where
  path := ⟨(Passes.of_thunks same).weaken .inl, ⟨fun _ inside => ⟨inside, rfl, rfl⟩, fun _ => rests _⟩⟩
  still t forcing e member := by
    rw [List.mem_singleton.mp member]
    unfold Forcing Memory.thunk at *
    rwa [same]
  forcing t := by
    unfold Forcing Memory.thunk
    rw [same]

theorem weaken (h : s.Courses M seen s') (le : ∀ {a b}, M a b → N a b) : s.Courses N seen s' := by
  refine ⟨?_, h.still, h.forcing⟩
  have path := h.path
  cases seen with
  | nil => exact path
  | cons e rest => exact ⟨path.1, path.2.last fun _ _ passes => passes.weaken le⟩

/-- Only the thunks matter. -/
theorem congr {u u' : State} (h : s.Courses M seen s') (before : u.memory.thunks = s.memory.thunks)
    (after : u'.memory.thunks = s'.memory.thunks) : u.Courses M seen u' := by
  have busy (t : ThunkRef) : u.Forcing t ↔ s.Forcing t := by simp only [Forcing, Memory.thunk, before]
  have busy' (t : ThunkRef) : u'.Forcing t ↔ s'.Forcing t := by simp only [Forcing, Memory.thunk, after]
  refine ⟨?_, fun t forcing => h.still t ((busy t).mp forcing), fun t => by rw [busy, busy', h.forcing]⟩
  have path := h.path
  cases seen with
  | nil => exact path.congr before after
  | cons e rest => exact ⟨path.1.congr before rfl, path.2.last fun _ _ passes => passes.congr rfl after⟩

/-- No thunk is lost. -/
theorem kept (h : s.Courses M seen s') {t : ThunkRef} (inside : t.index < s.memory.thunks.size) :
    t.index < s'.memory.thunks.size := by
  have onward : ∀ (rest : List State) (e : State), e.Onward M rest s' → t.index < e.memory.thunks.size →
      t.index < s'.memory.thunks.size := by
    intro rest
    induction rest with
    | nil => exact fun e path inside => (Passes.kept path t inside).1
    | cons x rest ih => exact fun e path inside => ih x path.2 (path.1.kept t inside).1
  have path := h.path
  cases seen with
  | nil => exact (path.kept t inside).1
  | cons e rest => exact onward rest e path.2 (path.1.kept t inside).1

/-- A course goes from point to point by single steps. -/
theorem chain (h : s.Courses M seen s') (le : ∀ {a b}, M a b → Phase.Drops a b) :
    (s :: seen ++ [s']).IsChain Advances := by
  have onward : ∀ (rest : List State) (e : State), e.Onward M rest s' → (e :: rest ++ [s']).IsChain Advances := by
    intro rest
    induction rest with
    | nil => exact fun e path => .cons_cons (Passes.advances path fun h => .inr (le h)) (.singleton _)
    | cons x rest ih => exact fun e path => .cons_cons (path.1.advances .inl) (ih x path.2)
  have path := h.path
  cases seen with
  | nil => exact .cons_cons (path.advances fun h => .inl (.inl (.inl h))) (.singleton _)
  | cons e rest => exact .cons_cons (path.1.advances fun h => .inl (.inr h)) (onward rest e path.2)

/-- The course of a thunk is that of its expression, during which it is being computed.
    It goes through an event unless nothing comes of it. -/
theorem computed {N : Option Phase → Option Phase → Prop} {s₁ : State} {r : ThunkRef} {home : FrameRef} (phase : Phase)
    (waits : s.phase? r = some .pending) (h : ((s.setPhase r .forcing).reenter home).Courses N seen s₁)
    (left : s'.memory = s₁.memory.setPhase r phase) (idle : phase ≠ .forcing) (goes : seen = [] → phase = .pending)
    (le : ∀ {a b}, N a b → M a b) (last : M (some .forcing) (some phase)) : s.Courses M seen s' := by
  have inside := lt_of_phase? waits
  have entered (t : ThunkRef) :
      ((s.setPhase r .forcing).reenter home).phase? t = if t = r then some .forcing else s.phase? t :=
    phase?_setPhase inside .forcing t
  have opened : s.Passes Phase.Opens ((s.setPhase r .forcing).reenter home) :=
    (Passes.setPhase inside (.inr ⟨rfl, .inr waits⟩) fun _ => .inl (.inl rfl)).congr rfl rfl
  have busy : ((s.setPhase r .forcing).reenter home).Forcing r := forcing_iff.mpr (by rw [entered, if_pos rfl])
  have inside₁ := lt_of_phase? (forcing_iff.mp ((h.forcing r).mpr busy))
  have ended (t : ThunkRef) : s'.phase? t = if t = r then some phase else s₁.phase? t := by
    have := phase?_setPhase inside₁ phase t
    unfold phase? at this ⊢
    rwa [left]
  have leaves : s₁.Passes (fun _ _ => True) s' := by
    have step : s₁.Passes (fun _ _ => True) (s₁.setPhase r phase) := .setPhase inside₁ trivial fun _ => trivial
    exact step.congr rfl (by rw [left]; rfl)
  -- the last event shows the thunk being computed, so what comes of it happens after that
  have closes (e : State) (member : e ∈ seen) (passes : e.Passes N s₁) : e.Passes M s' := by
    refine ⟨(passes.comp leaves fun _ _ => trivial).kept, fun t => ?_⟩
    rw [ended]
    split
    · rename_i here
      rw [here, forcing_iff.mp (h.still r busy e member)]
      exact last
    · exact le (passes.moves t)
  refine ⟨?_, fun t forcing e member => ?_, fun t => ?_⟩
  · have path := h.path
    cases seen with
    | cons e rest => exact ⟨opened.comp path.1 Phase.Opens.trans, path.2.last closes⟩
    | nil =>
      refine ⟨((opened.comp path fun _ _ => trivial).comp leaves fun _ _ => trivial).kept, fun t => ?_⟩
      have move := path.moves t
      rw [entered] at move
      rw [ended, goes rfl]
      split
      · rename_i here
        rw [here, waits]
        exact .inl rfl
      · rename_i other
        rwa [if_neg other] at move
  · refine h.still t (forcing_iff.mpr ?_) e member
    rw [entered]
    split
    · rfl
    · exact forcing_iff.mp forcing
  · rw [forcing_iff, forcing_iff, ended]
    split
    · rename_i here
      rw [here, waits]
      simp [idle]
    · rename_i other
      rw [← forcing_iff, h.forcing t, forcing_iff, entered, if_neg other]

end Courses
end State

/-! ## Evaluations -/

namespace Eval

/-- What an evaluation does to thunks, however it ends. If it succeeds and is to begin with
    an event it announces one. -/
def Lives (ctx : Context σ) (begins : Bool) (x : Eval σ α) : Prop := ∀ m,
  match runOn x m with
  | (.ok _, m') => ∃ log, m'.watch = ctx.observer.shown m.watch log ∧ (begins = true → log ≠ []) ∧
      m.state.Courses Phase.Closes (log.map (·.2)) m'.state
  | (.error _, m') => ∃ log, m'.watch = ctx.observer.shown m.watch log ∧
      m.state.Courses Phase.Drops (log.map (·.2)) m'.state

namespace Lives
variable {ctx : Context σ} {b : Bool}

theorem pure (a : α) : Lives ctx false (pure a) := fun _ => ⟨[], rfl, nofun, .of_thunks rfl⟩

theorem stop (i : Interrupt) : Lives ctx b (throw i : Eval σ α) := fun _ => ⟨[], rfl, .of_thunks rfl⟩

theorem state : Lives ctx false (Eval.state (σ := σ)) := fun _ => ⟨[], rfl, nofun, .of_thunks rfl⟩

/-- A change that allocates at most a thunk. -/
theorem modifyGet {f : State → α × State} (h : ∀ s : State, s.Passes Phase.Rests (f s).2) :
    Lives ctx false (Eval.modifyGet (σ := σ) f) := fun m => ⟨[], rfl, nofun, .quiet (h m.state)⟩

theorem modify {f : State → State} (h : ∀ s : State, (f s).memory.thunks = s.memory.thunks) :
    Lives ctx false (Eval.modify (σ := σ) f) := fun m => ⟨[], rfl, nofun, .of_thunks (h m.state)⟩

theorem forget {x : Eval σ α} (h : Lives ctx true x) : Lives ctx false x := by
  intro m
  have run := h m
  generalize runOn x m = outcome at run ⊢
  obtain ⟨result, m'⟩ := outcome
  cases result with
  | error i => exact run
  | ok a =>
    obtain ⟨log, shown, -, course⟩ := run
    exact ⟨log, shown, nofun, course⟩

/-- One evaluation after the other, of which either may begin with an event. -/
theorem andThen {c : Bool} {x : Eval σ α} {f : α → Eval σ β} (hx : Lives ctx b x) (hf : ∀ a, Lives ctx c (f a)) :
    Lives ctx (b || c) (x >>= f) := by
  intro m
  have first := hx m
  rw [runOn_bind]
  generalize runOn x m = outcome at first ⊢
  obtain ⟨result, m'⟩ := outcome
  cases result with
  | error i => exact first
  | ok a =>
    obtain ⟨log, shown, begun, course⟩ := first
    have second := hf a m'
    dsimp only
    generalize runOn (f a) m' = outcome at second ⊢
    obtain ⟨result', m''⟩ := outcome
    cases result' with
    | error i =>
      obtain ⟨log', shown', course'⟩ := second
      refine ⟨log ++ log', by rw [shown', shown, Observer.shown_append], ?_⟩
      rw [List.map_append]
      exact course.comp (fun h h' => .inl (h.rests h')) course'
    | ok c =>
      obtain ⟨log', shown', begun', course'⟩ := second
      refine ⟨log ++ log', by rw [shown', shown, Observer.shown_append], fun h => ?_, ?_⟩
      · rcases Bool.or_eq_true_iff.mp h with first | second
        · simp [begun first]
        · simp [begun' second]
      · rw [List.map_append]
        exact course.comp Phase.Closes.rests course'

theorem bind {x : Eval σ α} {f : α → Eval σ β} (hx : Lives ctx b x) (hf : ∀ a, Lives ctx false (f a)) :
    Lives ctx b (x >>= f) := by simpa using hx.andThen hf

theorem before {x : Eval σ α} {f : α → Eval σ β} (hx : Lives ctx false x) (hf : ∀ a, Lives ctx true (f a)) :
    Lives ctx true (x >>= f) := hx.andThen hf

theorem attempt {fault? : State → Option EvalError} {change : State → State}
    (h : ∀ s : State, (change s).memory.thunks = s.memory.thunks) :
    Lives ctx false (Eval.attempt (σ := σ) fault? change) := by
  refine bind state fun s => ?_
  cases fault? s with
  | some e => exact stop _
  | none => exact modify h

theorem suspend (e : Event) : Lives ctx true (Eval.suspend ctx e) := by
  intro m
  have shown := ctx.observer.shown_single m.watch e { m.state with lastEvent := some e }
  rw [runOn_suspend]
  generalize ctx.observer.onStep m.watch e { m.state with lastEvent := some e } = answer at shown ⊢
  obtain ⟨w, action⟩ := answer
  cases action with
  | proceed => exact ⟨_, shown.symm, nofun, .announce (fun _ => .inl (.inl rfl)) rfl⟩
  | halt => exact ⟨_, shown.symm, .announce (fun _ => .inl (.inl (.inl rfl))) rfl⟩

theorem enter (n : NodeSummary) : Lives ctx true (Eval.enter ctx n) := by
  refine before (modify fun _ => rfl) fun _ => ?_
  split
  · refine before state fun s => ?_
    dsimp only
    split
    · exact bind (stop _) fun _ => (suspend _).forget
    · exact suspend _
  · exact suspend _

theorem exit (n : NodeSummary) : Lives ctx false (Eval.exit ctx n) :=
  bind (modify fun _ => rfl) fun _ => (suspend _).forget

/-! ## Frames, calls and thunks -/

theorem checkDepth (limit : Nat) (span : Option Span) : Lives ctx false (Eval.checkDepth (σ := σ) limit span) :=
  bind state fun _ => by
    split
    · exact stop _
    · exact pure ()

theorem pop (n : Nat) : Lives ctx false (Eval.pop (σ := σ) n) := attempt fun _ => by simp

theorem inFrame {x : Eval σ α} (tag : FrameTag) (h : Lives ctx false x) : Lives ctx false (Eval.inFrame tag x) :=
  bind (modifyGet fun _ => .of_thunks rfl) fun n => bind h fun a => bind (pop n) fun _ => pure a

theorem leaveCall (name : String) (n : Nat) : Lives ctx false (Eval.leaveCall (σ := σ) name n) := by
  rintro ⟨s, w⟩
  obtain ⟨result, s', left, change⟩ := exists_runOn_leaveCall name n s
  have same : s'.memory.thunks = s.memory.thunks := by
    rcases change with rfl | rfl | rfl <;> simp [State.popCall]
  rw [left]
  cases result with
  | error e => exact ⟨[], rfl, .of_thunks same⟩
  | ok _ => exact ⟨[], rfl, fun asked => absurd asked Bool.false_ne_true, .of_thunks same⟩

theorem inCall {x : Eval σ α} (name : String) (h : Lives ctx false x) : Lives ctx false (Eval.inCall name x) :=
  bind (modifyGet fun _ => .of_thunks rfl) fun n => bind h fun a => bind (leaveCall name n) fun _ => pure a

/-- The computation of a thunk ends with its value or puts it back. Since its expression
    leaves the chain as it was, its frame can be popped. -/
theorem compute {x : Node → Eval σ Value} (r : ThunkRef) (balanced : ∀ n, Balanced (x n))
    (h : ∀ n, Lives ctx true (x n)) : Lives ctx false (Eval.compute r x) := by
  intro m
  rw [runOn_compute]
  dsimp only
  cases phase : (m.state.memory.thunk r).phase with
  | forced v => exact ⟨[], rfl, nofun, .of_thunks rfl⟩
  | forcing => exact ⟨[], rfl, .of_thunks rfl⟩
  | pending =>
    have inside : r.index < m.state.memory.thunks.size := Memory.lt_of_phase (by simp [phase])
    have waits : m.state.phase? r = some .pending := by rw [State.phase?_of_lt inside, phase]
    have run := h (m.state.memory.thunk r).expression
      { m with state := (m.state.setPhase r .forcing).reenter (m.state.memory.thunk r).home }
    have steady := balanced (m.state.memory.thunk r).expression
      { m with state := (m.state.setPhase r .forcing).reenter (m.state.memory.thunk r).home }
    unfold runOn at run ⊢
    cases ended : x (m.state.memory.thunk r).expression
        { m with state := (m.state.setPhase r .forcing).reenter (m.state.memory.thunk r).home } with
    | error i m' =>
      simp only [ended] at run ⊢
      obtain ⟨log, shown, course⟩ := run
      exact ⟨log, shown, course.computed _ waits rfl nofun (fun _ => rfl) id (.inr ⟨rfl, rfl⟩)⟩
    | ok v m' =>
      simp only [ended] at run ⊢
      obtain ⟨log, shown, begun, course⟩ := run
      obtain ⟨stack, -⟩ := State.sameControl_iff.mp (steady v m' ended)
      have fine : m'.state.popFault? (m.state.memory.thunk r).home.number = none := by
        unfold State.popFault?
        rw [stack]
        simp [State.reenter]
      simp only [fine]
      refine ⟨log, shown, nofun, course.computed (.forced v) waits (by simp [State.setPhase]) nofun
        (fun none => ?_) id (.inr ⟨rfl, v, rfl⟩)⟩
      exact absurd (List.map_eq_nil_iff.mp none) (begun trivial)

/-- The life of thunks passes through every construct. -/
theorem lockstep (ctx : Context σ) :
    Lockstep ctx ctx (· = ·) (fun x _ => Balanced x ∧ Lives ctx false x) fun x _ => Balanced x ∧ Lives ctx true x where
  strategy := rfl
  pure a := ⟨.pure a, pure a⟩
  bind hx hf := ⟨.bind hx.1 fun a => (hf a).1, bind hx.2 fun a => (hf a).2⟩
  fail e := ⟨.stop (.error e), stop (.error e)⟩
  stray _ _ := ⟨.bind .state fun _ => .stop _, bind state fun _ => stop _⟩
  read h := ⟨.bind .state fun s => (h s s (.refl s)).1, bind state fun s => (h s s (.refl s)).2⟩
  sameValues v w := ⟨(Balanced.lockstep ctx).sameValues v w, bind state fun s => by
    cases s.memory.same? v w with
    | none => exact stop _
    | some same => exact pure same⟩
  newArray _ := ⟨.allocate _, modifyGet fun _ => .of_thunks rfl⟩
  newClosure _ _ _ := ⟨.allocate _, modifyGet fun _ => .of_thunks rfl⟩
  delay n := ⟨(Balanced.lockstep ctx).delay n, bind state fun s => bind (modifyGet fun _ => .newThunk _ n s.top) fun _ => pure _⟩
  setElement r i v _ := ⟨(Balanced.lockstep ctx).setElement r i v trivial, modify fun _ => rfl⟩
  write text := ⟨(Balanced.lockstep ctx).write text, modify fun _ => rfl⟩
  declare name kind v span := ⟨(Balanced.lockstep ctx).declare name kind v span, attempt fun _ => by simp⟩
  declareGlobal name kind v span := ⟨(Balanced.lockstep ctx).declareGlobal name kind v span, attempt fun _ => by simp⟩
  redefine name kind v := ⟨(Balanced.lockstep ctx).redefine name kind v, modify fun _ => by simp⟩
  assign name v span := ⟨(Balanced.lockstep ctx).assign name v span, attempt fun _ => by simp⟩
  inFrame {_ _ _ tag} _ h := ⟨.inFrame tag h.1, inFrame tag h.2⟩
  inCall name span h :=
    ⟨.bind (.checkDepth _ span) fun _ => .inCall name h.1, bind (checkDepth _ span) fun _ => inCall name h.2⟩
  compute r h := ⟨.compute r fun n => (h n).1, compute r (fun n => (h n).1) fun n => (h n).2⟩
  bracket n h := ⟨.bind (.enter ctx n) fun _ => .bind h.1 fun a => .bind (.exit ctx n) fun _ => .pure a,
    bind (enter n) fun _ => bind h.2 fun a => bind (exit n) fun _ => pure a⟩
  after hx hf := ⟨.bind hx.1 fun a => (hf a).1, bind hx.2 fun a => (hf a).2⟩
  quit := ⟨.stop _, stop _⟩
  forget h := ⟨h.1, h.2.forget⟩
  fuels_zero h := .inl h.symm
  fuels_succ h := ⟨_, h.symm, rfl⟩

end Lives
end Eval

/-! ## Histories -/

/-- Running a task is a course from the state in which it begins to the one that it leaves. -/
theorem Task.courses (t : Task) (s : State) : s.Courses Phase.Drops (t.run s).1 (t.run s).2 := by
  have lives := ((Eval.Lives.lockstep ⟨t.settings, t.observer.keeping⟩).program (rfl : t.fuel = t.fuel) t.program rfl).2
    ⟨s.beginEvaluation, (t.watch, [])⟩
  have seen (w : t.memory × List State) (log : Log) (shown : w = t.observer.keeping.shown (t.watch, []) log) :
      w.2.reverse = log.map (·.2) := by
    rw [shown, Observer.shown_keeping]
    simp
  have began : s.memory.thunks = s.beginEvaluation.memory.thunks := by simp
  unfold run Eval.execute
  generalize Eval.runOn _ (⟨s.beginEvaluation, (t.watch, [])⟩ : Machine _) = outcome at lives ⊢
  obtain ⟨result, m⟩ := outcome
  cases result with
  | ok v =>
    obtain ⟨log, shown, -, course⟩ := lives
    show s.Courses Phase.Drops m.watch.2.reverse m.state
    rw [seen _ log shown]
    exact (course.weaken .inl).congr began rfl
  | error i =>
    obtain ⟨log, shown, course⟩ := lives
    cases i with
    | error e =>
      show s.Courses Phase.Drops m.watch.2.reverse (m.state.recover e)
      rw [seen _ log shown]
      exact course.congr began (by simp)
    | _ =>
      show s.Courses Phase.Drops m.watch.2.reverse m.state
      rw [seen _ log shown]
      exact course.congr began rfl

namespace State

/-- Each point of a history comes from the one before by single steps. -/
theorem chain_history (s : State) (tasks : List Task) : (s.history tasks).IsChain Advances := by
  induction tasks generalizing s with
  | nil => exact .singleton s
  | cons t rest ih =>
    have course := (t.courses s).chain id
    have onward := ih (t.run s).2
    obtain ⟨tail, head⟩ := (t.run s).2.history_eq_cons rest
    unfold history
    rw [head] at onward ⊢
    show (s :: (t.run s).1 ++ (t.run s).2 :: tail).IsChain Advances
    rw [List.isChain_append] at course ⊢
    refine ⟨course.1, onward, ?_⟩
    simpa using course.2.2

/-- No thunk is being computed after tasks if none was before. -/
theorem quiet_after (s : State) (tasks : List Task) (quiet : ∀ t, ¬ s.Forcing t) (t : ThunkRef) :
    ¬ (s.after tasks).Forcing t := by
  induction tasks generalizing s with
  | nil => exact quiet t
  | cons task rest ih => exact ih (task.run s).2 fun r => by rw [(task.courses s).forcing]; exact quiet r

/-- A thunk gets its value between two points of a history. -/
def Completes (s : State) (t : ThunkRef) (s' : State) : Prop :=
  (∀ v, s.phase? t ≠ some (.forced v)) ∧ ∃ v, s'.phase? t = some (.forced v)

/-- A value of a thunk is its value at every later point. -/
theorem forced_history (s : State) (tasks : List Task) : (s.history tasks).Pairwise fun u u' =>
    ∀ t v, u.phase? t = some (.forced v) → u'.phase? t = some (.forced v) := by
  let Recalls (u u' : State) : Prop := ∀ t v, u.phase? t = some (.forced v) → u'.phase? t = some (.forced v)
  have : IsTrans State Recalls := ⟨fun _ _ _ h h' t v found => h' t v (h t v found)⟩
  refine List.isChain_iff_pairwise.mp ((s.chain_history tasks).imp fun u u' advances t v found => ?_)
  rcases advances.steps t _ found with same | ⟨b, move, -⟩
  · exact same
  · cases move

/-- A thunk gets its value once. -/
theorem completes_history (s : State) (tasks : List Task) (t : ThunkRef) :
    ((s.history tasks).zip (s.history tasks).tail).Pairwise fun p q => p.1.Completes t p.2 → ¬ q.1.Completes t q.2 := by
  have forced := List.pairwise_iff_getElem.mp (s.forced_history tasks)
  rw [List.pairwise_iff_getElem]
  intro i j hi hj before first second
  simp only [List.length_zip, List.length_tail, Nat.lt_min] at hi hj
  simp only [List.getElem_zip, List.getElem_tail] at first second
  obtain ⟨-, v, done⟩ := first
  rcases Nat.lt_or_eq_of_le (Nat.succ_le_of_lt before) with earlier | next
  · exact second.1 v (forced (i + 1) j (by omega) (by omega) earlier t v done)
  · subst next
    exact second.1 v done

end State

namespace Eval

/-- A thunk that has a value yields it without its expression. -/
theorem compute_forced {m : Machine σ} {t : ThunkRef} {v : Value} (forced : m.state.phase? t = some (.forced v))
    (evaluate : Node → Eval σ Value) : compute t evaluate m = .ok v m := by
  refine compute_eq_ok.mpr (.inl ⟨?_, rfl⟩)
  unfold State.phase? at forced
  split at forced
  · exact Option.some.inj forced
  · cases forced

/-- A thunk that is being computed cannot be computed. -/
theorem compute_forcing {m : Machine σ} {t : ThunkRef} (forcing : m.state.Forcing t) (evaluate : Node → Eval σ Value) :
    compute t evaluate m = .error (.error (.cyclicThunk (m.state.memory.thunk t).expression.loc)) m := by
  have outcome := runOn_compute t evaluate m
  dsimp only at outcome
  rw [show (m.state.memory.thunk t).phase = .forcing from forcing] at outcome
  unfold runOn at outcome
  cases ended : compute t evaluate m with
  | ok v m' => simp [ended] at outcome
  | error i m' =>
    rw [ended] at outcome
    cases outcome
    rfl

/-- A thunk that has been computed has a value. -/
theorem forced_of_force {ctx : Context σ} {fuel : Nat} {m m' : Machine σ} {t : ThunkRef} {v : Value}
    (made : t.index < m.state.memory.thunks.size) (done : (visitor ctx fuel).force (.lazy t) m = .ok v m') :
    m'.state.phase? t = some (.forced v) := by
  have L := Lives.lockstep ctx
  have V := L.visitors (rfl : fuel = fuel)
  unfold Visitor.force at done
  have lives := (V.force (.lazy t)).2 m
  unfold runOn Visitor.force at lives
  rw [done] at lives
  obtain ⟨log, -, -, course⟩ := lives
  have inside := course.kept made
  cases fuel with
  | zero => exact absurd done throw_ne_ok
  | succ fuel =>
    obtain ⟨forced, rfl⟩ | ⟨pending, m₁, evaluated, -, rfl⟩ := compute_eq_ok.mp done
    · rw [State.phase?_of_lt made, forced]
    · rw [State.phase?_setPhase (by simpa [State.setPhase] using inside), if_pos rfl]

end Eval

/-- The life of thunks under every sequence of runs, of any programs under any settings and
    observers, that starts with no thunk being computed. From each point that can be seen
    to the next a thunk takes at most one step of its life; it has its value for good,
    which it got at most once; after every run, however it ended, no thunk is being
    computed. A thunk with a value is never evaluated again, one that is being computed
    cannot be computed, and one whose computation succeeds has its value afterwards. -/
theorem State.thunk_life (s : State) (tasks : List Task) (quiet : ∀ t, ¬ s.Forcing t) :
    (s.history tasks).IsChain Advances ∧
    ((s.history tasks).Pairwise fun u u' => ∀ t v, u.phase? t = some (.forced v) → u'.phase? t = some (.forced v)) ∧
    (∀ t, ((s.history tasks).zip (s.history tasks).tail).Pairwise fun p q =>
      p.1.Completes t p.2 → ¬ q.1.Completes t q.2) ∧
    (∀ t, ¬ (s.after tasks).Forcing t) ∧
    ∀ {σ : Type} (ctx : Context σ) (fuel : Nat) (t : ThunkRef) (m : Machine σ),
      (∀ v, m.state.phase? t = some (.forced v) → ∀ evaluate, Eval.compute t evaluate m = .ok v m) ∧
      (m.state.Forcing t → (Eval.visitor ctx (fuel + 1)).force (.lazy t) m =
        .error (.error (.cyclicThunk (m.state.memory.thunk t).expression.loc)) m) ∧
      (∀ v m', t.index < m.state.memory.thunks.size → (Eval.visitor ctx fuel).force (.lazy t) m = .ok v m' →
        m'.state.phase? t = some (.forced v)) := by
  refine ⟨s.chain_history tasks, s.forced_history tasks, s.completes_history tasks, s.quiet_after tasks quiet, ?_⟩
  intro σ ctx fuel t m
  refine ⟨fun v forced => Eval.compute_forced forced, fun forcing => ?_, fun v m' made done =>
    Eval.forced_of_force made done⟩
  exact Eval.compute_forcing forcing fun n => do
    (Eval.visitor ctx (fuel + 1)).forceWithin fuel (← (Eval.visitor ctx (fuel + 1)).expression n)

/-- A run is halted while a thunk is being computed, which waits again afterwards. -/
theorem State.halted_thunk_waits :
    let x := Tree.expr (Tree.ident "x")
    let halting : Task := ⟨{ strategy := .lazy }, .haltingAt fun _ s => s.steps == 9, (), 20,
      ⟨[Tree.var "int" "x" (some (Tree.bin .add (Tree.num 1.0) (Tree.num 2.0))), x], none⟩⟩
    (∃ s ∈ seeded.history [halting], s.Forcing ⟨0⟩) ∧ ∀ t, ¬ (seeded.after [halting]).Forcing t := by
  intro x halting
  have seen : (seeded.history [halting]).any (fun s =>
      match (s.memory.thunk ⟨0⟩).phase with | .forcing => true | _ => false) = true := by decide +kernel
  refine ⟨?_, (thunk_life seeded [halting] fun t forcing => ?_).2.2.2.1⟩
  · obtain ⟨s, member, holds⟩ := List.any_eq_true.mp seen
    refine ⟨s, member, ?_⟩
    unfold Forcing
    split at holds
    · assumption
    · cases holds
  · rw [Forcing, Memory.thunk_of_le (Nat.zero_le _)] at forcing
    cases forcing

end MiniC
