import MiniC.Proofs.Simulation

/-!
# Rules of simulation

How a strict run and its companion act on their states: they look up and declare names,
make arrays and functions, and take up and give back frames and calls. What is put off
and computed later comes after this.
-/

namespace MiniC
variable {α β : Type}

/-! ## Steps that change nothing else -/

/-- Nothing changes but what no evaluation depends on. -/
structure State.Ticks (s s' : State) : Prop where
  stack : s'.stack = s.stack
  calls : s'.calls = s.calls
  frames : s'.frames = s.frames
  memory : s'.memory = s.memory
  steps : s.steps ≤ s'.steps

namespace State.Ticks
variable {s s' : State} (h : s.Ticks s')
include h

theorem frame (n : Nat) : s'.frame (.numbered n) = s.frame (.numbered n) := by simp only [State.frame, h.frames]

theorem get? (n : Nat) (x : String) : s'.get? (.numbered n) x = s.get? (.numbered n) x := by
  rw [State.get?, h.frame, State.get?]

theorem top : s'.top = s.top := by rw [State.top, State.top, h.stack]

theorem scope (L : s.Lexical) : s'.scope = s.scope := by
  obtain ⟨n, -, top⟩ := L.top_inside
  rw [State.scope, State.scope, h.top, top, h.frame]

theorem held (L : s.Lexical) {v : Value} (held : s.Held v) : s'.Held v := by
  obtain ⟨r, seen, own⟩ := held
  refine ⟨r, by rw [h.scope L]; exact seen, fun t same => ?_⟩
  rw [h.memory]
  exact own t same

end State.Ticks

/-- Scopes correspond after steps of both runs. -/
theorem Scopes.tick {W : Pairing} {M : FrameRef → String → Prop} {s s' l l' : State}
    (S : Scopes W M (s.steps + 1) s l s.scope l.scope) (strict : s.Ticks s') (put : l.Ticks l')
    (L : s.Lexical) (L' : l.Lexical) :
    Scopes W M (s'.steps + 1) s' l' s'.scope l'.scope := by
  rw [strict.scope L, put.scope L']
  refine S.change (.refl W) (Nat.succ_le_succ strict.steps) (fun _ _ _ => id) (fun r member x => ?_) fun r member x => ?_
  · obtain ⟨n, rfl⟩ := S.numbered.1 r member
    exact strict.get? n x
  · obtain ⟨n, rfl⟩ := S.numbered.2 r member
    exact put.get? n x

namespace Sim
variable {settings : Settings} {N : Nat} {f g : Facts} {s : State} {C : Companion}
variable {Q : State → Companion → α → α → Prop} {R : State → Companion → β → β → Prop}

/-- Both runs make a step of no consequence. -/
theorem tick {x : Eval Unit α} {y : Lazily α} (a b : α) (s' : State) (step : State → State)
    (strict : ∀ c m, x ⟨s, ()⟩ = .ok c m → c = a ∧ m = ⟨s', ()⟩) (ticks : s.Ticks s')
    (put : ∀ l, Settles y l b (step l)) (steps : ∀ l : State, l.Ticks (step l))
    (alone : Q s' none a a) (along : ∀ W l, C = some (W, l) → l.Lexical → Q s' (some (W, step l)) a b) :
    Sim settings N f s C x y Q where
  alone fit c m ran := by
    obtain ⟨rfl, rfl⟩ := strict c m ran
    exact ⟨.tick ticks.stack ticks.calls ticks.frames ticks.memory ticks.steps,
      fit.sober.restack ticks.frames ticks.memory ticks.stack, alone⟩
  along W l goes fit c m ran within M H aligned := by
    obtain ⟨rfl, rfl⟩ := strict c m ran
    have on := steps l
    exact ⟨b, step l, W, put l, .frames on.memory (aligned.matched.tick on.stack on.frames on.memory)
      (aligned.scopes.tick ticks on fit.sober.lexical aligned.matched.lexical)
      (.tick on.stack on.calls on.frames on.memory on.steps), along W l goes aligned.matched.lexical⟩

/-- Both runs make the same change of no consequence. -/
theorem change {x : Eval Unit Unit} {y : Lazily Unit} (step : State → State) (ticks : ∀ s : State, s.Ticks (step s))
    (strict : x ⟨s, ()⟩ = .ok () ⟨step s, ()⟩) (put : ∀ l limit fuel, y limit fuel ⟨l, ()⟩ = .ok () ⟨step l, ()⟩) :
    Sim settings N f s C x y fun _ _ _ _ => True := by
  refine tick () () (step s) step (fun c m ran => ?_) (ticks s) (fun l => .always (put l)) ticks trivial fun _ _ _ _ => trivial
  rw [strict] at ran
  cases ran
  exact ⟨rfl, rfl⟩

/-- One more call is allowed on the strict side, and on the other one if its limit is
    generous. -/
theorem checkDepth (limit : Nat) (span : Option Span) :
    Sim settings N .idle s C (Eval.checkDepth limit span) (fun limit _ => Eval.checkDepth limit span)
      fun _ _ _ _ => True := by
  refine tick () () s id (fun c m ran => ?_) ⟨rfl, rfl, rfl, rfl, Nat.le_refl _⟩ (fun l => ?_) (fun l => ⟨rfl, rfl, rfl, rfl, Nat.le_refl _⟩) trivial fun _ _ _ _ => trivial
  · unfold Eval.checkDepth at ran
    obtain ⟨_, _, read, rest⟩ := Eval.bind_eq_ok.mp ran
    obtain ⟨rfl, rfl⟩ := Eval.state_eq_ok.mp read
    split at rest
    · exact absurd rest Eval.fail_ne_ok
    · obtain ⟨same, rfl⟩ := Eval.pure_eq_ok.mp rest
      exact ⟨same.symm, rfl⟩
  · refine ⟨l.callDepth + 1, fun limit fuel wide _ => ?_⟩
    unfold Eval.checkDepth
    refine Eval.bind_eq_ok.mpr ⟨l, ⟨l, ()⟩, rfl, ?_⟩
    rw [if_neg (Nat.not_le.mpr wide)]
    rfl

/-! ## Reading -/

/-- What is read of the two memories belongs together. -/
theorem read {k : State → Eval Unit α} {k' : Nat → Nat → State → Eval Unit α}
    (h : ∀ C' l, Later s C s C' → (∀ W l₀, C' = some (W, l₀) → l₀ = l ∧ W.Heaps s.memory l.memory) → s.Sober →
      Sim settings N f s C' (k s) (fun limit fuel => k' limit fuel l) Q) :
    Sim settings N f s C (Eval.state >>= k) (fun limit fuel => Eval.state >>= k' limit fuel) Q where
  alone fit a m ran := by
    obtain ⟨_, _, here, rest⟩ := Eval.bind_eq_ok.mp ran
    obtain ⟨rfl, rfl⟩ := Eval.state_eq_ok.mp here
    exact (h none s (.alone (Nat.le_refl _)) nofun fit.sober).alone fit a m rest
  along W l goes fit a m ran within M H aligned := by
    obtain ⟨_, _, here, rest⟩ := Eval.bind_eq_ok.mp ran
    obtain ⟨rfl, rfl⟩ := Eval.state_eq_ok.mp here
    have evolves := ((h none s (.alone (Nat.le_refl _)) nofun fit.sober).alone fit a m rest).1
    have heaps := aligned.matched.heaps fit.sober (evolves.arrays.trans aligned.heap)
    have reads : ∀ W' l₀, C = some (W', l₀) → l₀ = l ∧ W'.Heaps s.memory l.memory := by
      intro W' l₀ same
      rw [goes] at same
      cases same
      exact ⟨rfl, heaps⟩
    obtain ⟨b, l', W', settles, forward, related⟩ :=
      (h C l (.refl s C) reads fit.sober).along W l goes fit a m rest within M H aligned
    exact ⟨b, l', W', (Settles.always fun _ _ => rfl).bind settles, forward, related⟩

/-- A name that the code mentions is looked up. -/
theorem lookup (name : String) (span : Option Span) :
    Sim settings N (.mention name) s C
      (do return .normal (← Eval.ofExcept ((← Eval.state).lookup name span)).value)
      (fun _ _ => do return .normal (← Eval.ofExcept ((← Eval.state).lookup name span)).value)
      fun s' C' c c' => Completed (s'.steps + 1) s' C' c c' := by
  have strict {a : Completion} {m : Machine Unit}
      (ran : (do return .normal (← Eval.ofExcept ((← Eval.state).lookup name span)).value : Eval Unit Completion)
        ⟨s, ()⟩ = .ok a m) :
      ∃ b, s.lookup name span = .ok b ∧ a = .normal b.value ∧ m = ⟨s, ()⟩ := by
    obtain ⟨_, _, here, rest⟩ := Eval.bind_eq_ok.mp ran
    obtain ⟨rfl, rfl⟩ := Eval.state_eq_ok.mp here
    obtain ⟨b, _, found, rest⟩ := Eval.bind_eq_ok.mp rest
    dsimp only at found
    cases result : s.lookup name span with
    | error e =>
      rw [result] at found
      exact absurd found Eval.fail_ne_ok
    | ok b' =>
      rw [result] at found
      obtain ⟨rfl, rfl⟩ := Eval.pure_eq_ok.mp found
      obtain ⟨rfl, rfl⟩ := Eval.pure_eq_ok.mp rest
      exact ⟨b', rfl, rfl, rfl⟩
  refine ⟨fun fit a m ran => ?_, fun W l goes fit a m ran within M H aligned => ?_⟩
  · obtain ⟨b, found, rfl, rfl⟩ := strict ran
    exact ⟨.refl _ s, fit.sober, .normal (.alone (fit.sober.has_lookup found))⟩
  · obtain ⟨b, found, rfl, rfl⟩ := strict ran
    obtain ⟨b', found', binds⟩ := aligned.scopes.lookup span (aligned.mentions name List.mem_cons_self) found
    refine ⟨.normal b'.value, l, W, .always fun limit fuel => ?_, .refl aligned.matched aligned.scopes,
      .normal ⟨fit.sober.has_lookup found, fun W' l' same => ?_⟩⟩
    · refine Eval.bind_eq_ok.mpr ⟨l, ⟨l, ()⟩, rfl, Eval.bind_eq_ok.mpr ⟨b', ⟨l, ()⟩, ?_, rfl⟩⟩
      rw [found']
      rfl
    · cases same
      exact ⟨binds.2, aligned.matched.lexical.held_lookup found'⟩

/-- A function is found by its global name. -/
theorem global (name : String) (k : Option Binding → Eval Unit α) (k' : Nat → Nat → Option Binding → Eval Unit α)
    (missing : ∀ a m, k none ⟨s, ()⟩ ≠ .ok a m)
    (others : ∀ b : Binding, b.value.Bindable → ∀ a m, k (some b) ⟨s, ()⟩ ≠ .ok a m)
    (found : ∀ C' kind v w, Later s C s C' → s.get? .global name = some ⟨kind, v⟩ → Related s C' v w → s.Sober →
      Sim settings N f s C' (k (some ⟨kind, v⟩)) (fun limit fuel => k' limit fuel (some ⟨kind, w⟩)) Q) :
    Sim settings N f s C (Eval.state >>= fun s => k (s.global? name))
      (fun limit fuel => Eval.state >>= fun l => k' limit fuel (l.global? name)) Q := by
  have strict {a : α} {m : Machine Unit} (ran : (Eval.state >>= fun s => k (s.global? name)) ⟨s, ()⟩ = .ok a m) :
      ∃ kind v, s.get? .global name = some ⟨kind, v⟩ ∧ ¬ v.Bindable ∧ k (some ⟨kind, v⟩) ⟨s, ()⟩ = .ok a m := by
    obtain ⟨_, _, here, rest⟩ := Eval.bind_eq_ok.mp ran
    obtain ⟨rfl, rfl⟩ := Eval.state_eq_ok.mp here
    change k (s.get? .global name) ⟨s, ()⟩ = _ at rest
    cases bound : s.get? .global name with
    | none =>
      rw [bound] at rest
      exact absurd rest (missing a m)
    | some b =>
      rw [bound] at rest
      exact ⟨b.kind, b.value, rfl, fun bindable => others b bindable a m rest, rest⟩
  refine ⟨fun fit a m ran => ?_, fun W l goes fit a m ran within M H aligned => ?_⟩
  · obtain ⟨kind, v, bound, -, rest⟩ := strict ran
    exact (found none kind v v (.alone (Nat.le_refl _)) bound (.alone (fit.sober.bindings _ _ _ bound)) fit.sober).alone
      fit a m rest
  · obtain ⟨kind, v, bound, function, rest⟩ := strict ran
    have has := fit.sober.bindings _ _ _ bound
    obtain ⟨⟨kind', w⟩, bound', same, promised⟩ := aligned.scopes.global bound
    obtain rfl : kind = kind' := same
    have related : Related s C v w := by
      cases promised with
      | plain same => exact ⟨has, same.like, fun W' l' also => by rw [goes] at also; cases also; exact same⟩
      | @put t b backed before =>
        exact absurd (Value.bindable_cast ((aligned.matched.backs t b backed).valid.fitted none)) function
    obtain ⟨b, l', W', settles, forward, result⟩ := (found C kind v w (.refl s C) bound related fit.sober).along W l goes
      fit a m rest within M H aligned
    refine ⟨b, l', W', (Settles.always (y := fun _ _ => Eval.state) fun _ _ => rfl).bind ?_, forward, result⟩
    show Settles (fun limit fuel => k' limit fuel (l.get? .global name)) l b l'
    rwa [bound']

/-! ## Declarations -/

/-- A name is declared in the frame on top. -/
theorem declare {name : String} {kind : Kind} {span : Option Span} {v w : Value} (has : s.memory.Has v) (bindable : v.Bindable)
    (bound : ∀ W l, C = some (W, l) → W.Bound (s.steps + 1) v w ∧ l.Own l.top w) :
    Sim settings N (.declaring [name]) s C (Eval.declare name kind v span) (fun _ _ => Eval.declare name kind w span)
      fun _ _ _ _ => True := by
  refine ⟨fun fit a m ran => ?_, fun W l goes fit a m ran within M H aligned => ?_⟩
  · obtain ⟨fine, rfl⟩ := Eval.attempt_eq_ok.mp ran
    have free := State.declareFault?_eq_none.mp fine
    obtain ⟨n, -, top⟩ := fit.sober.lexical.top_inside
    dsimp only at free ⊢
    rw [top] at free ⊢
    refine ⟨.bind free (.inl ⟨top.symm, List.mem_cons_self, bindable⟩), fit.sober.bind has fun c same => ?_, trivial⟩
    change v = .closure c at same
    exact absurd (by rw [same]; rfl) bindable
  · obtain ⟨fine, rfl⟩ := Eval.attempt_eq_ok.mp ran
    have free := State.declareFault?_eq_none.mp fine
    dsimp only at free ⊢
    obtain ⟨promised, own⟩ := bound W l goes
    have L := fit.sober.lexical
    have L' := aligned.matched.lexical
    obtain ⟨n, inside, top⟩ := L.top_inside
    obtain ⟨n', inside', top'⟩ := L'.top_inside
    have free' : l.get? l.top name = none := aligned.scopes.top_free (aligned.declares name List.mem_cons_self) free
    have bindable' : w.Bindable := by
      cases promised with
      | plain same =>
        unfold Value.Bindable
        rw [same.type]
        exact bindable
      | put => exact nofun
    have binds : W.Binds (s.steps + 1) ⟨kind, v⟩ ⟨kind, w⟩ := ⟨rfl, promised⟩
    have scopes := aligned.scopes
    rw [State.scope, State.scope, top, top'] at scopes
    rw [top] at free ⊢
    rw [top'] at free' own
    have strict : Evolves (.declaring [name]) s (s.bind (.numbered n) name ⟨kind, v⟩) :=
      .bind free (.inl ⟨top.symm, List.mem_cons_self, bindable⟩)
    have put : Evolves (.declaring [name]) l (l.bind (.numbered n') name ⟨kind, w⟩) :=
      .bind free' (.inl ⟨top'.symm, List.mem_cons_self, bindable'⟩)
    refine ⟨(), l.bind (.numbered n') name ⟨kind, w⟩, W, .always fun _ _ => ?_, .frames (l.bind_memory ..) ?_ ?_ put, trivial⟩
    · refine Eval.attempt_eq_ok.mpr ⟨State.declareFault?_eq_none.mpr ?_, ?_⟩
      · rw [top']
        exact free'
      · rw [top']
    · exact aligned.matched.declare top' free' own (aligned.newest (List.cons_ne_nil _ _)) fun t b backed waits home =>
        aligned.clear t b name backed waits home List.mem_cons_self
    · rw [strict.scope L, put.scope L', State.bind_steps, State.scope, State.scope, top, top']
      exact scopes.declare inside inside' (fun _ => L.ne_of_mem_around inside) (fun _ => L'.ne_of_mem_around inside') binds

/-- A function is declared in the global frame. It is the first one of its name. -/
theorem declareGlobal {name : String} {kind : Kind} {span : Option Span} {c : Closure} {w : Value}
    (related : Related s C (.closure c) w) :
    Sim settings N (.declaringFunction [name] c.body.facts) s C
      (do
        match (← Eval.state).global? name with
        | some ⟨_, .closure _⟩ => Eval.modify (·.bind .global name ⟨kind, .closure c⟩)
        | _ => Eval.declareGlobal name kind (.closure c) span)
      (fun _ _ => do
        match (← Eval.state).global? name with
        | some ⟨_, .closure _⟩ => Eval.modify (·.bind .global name ⟨kind, w⟩)
        | _ => Eval.declareGlobal name kind w span)
      fun _ _ _ _ => True := by
  have strict {a : Unit} {m : Machine Unit} (fresh : ∀ kind c, s.get? .global name ≠ some ⟨kind, .closure c⟩)
      (ran : (do
        match (← Eval.state).global? name with
        | some ⟨_, .closure _⟩ => Eval.modify (·.bind .global name ⟨kind, .closure c⟩)
        | _ => Eval.declareGlobal name kind (.closure c) span : Eval Unit Unit) ⟨s, ()⟩ = .ok a m) :
      s.get? .global name = none ∧ m = ⟨s.bind .global name ⟨kind, .closure c⟩, ()⟩ := by
    obtain ⟨_, _, here, rest⟩ := Eval.bind_eq_ok.mp ran
    obtain ⟨rfl, rfl⟩ := Eval.state_eq_ok.mp here
    have declared {m : Machine Unit} (ran : Eval.declareGlobal name kind (.closure c) span ⟨s, ()⟩ = .ok a m) :
        s.get? .global name = none ∧ m = ⟨s.bind .global name ⟨kind, .closure c⟩, ()⟩ := by
      obtain ⟨fine, rfl⟩ := Eval.attempt_eq_ok.mp ran
      exact ⟨State.declareFault?_eq_none.mp fine, rfl⟩
    cases found : s.global? name with
    | none =>
      rw [found] at rest
      exact declared rest
    | some b =>
      obtain ⟨kind', v⟩ := b
      rw [found] at rest
      cases v with
      | closure d => exact absurd found (fresh kind' d)
      | _ => exact declared rest
  have evolves {s : State} {w : Value} (free : s.get? .global name = none) :
      Evolves (.declaringFunction [name] c.body.facts) s (s.bind .global name ⟨kind, w⟩) :=
    .bind free (.inr ⟨rfl, List.mem_cons_self⟩)
  refine ⟨fun fit a m ran => ?_, fun W l goes fit a m ran within M H aligned => ?_⟩
  · obtain ⟨free, rfl⟩ := strict (fun kind c => fit.fresh name kind c List.mem_cons_self) ran
    refine ⟨evolves free, fit.sober.bind related.has fun d same => ?_, trivial⟩
    cases same
    exact Facts.declaringFunction_ok.mp fit.ok
  · obtain ⟨free, rfl⟩ := strict (fun kind c => fit.fresh name kind c List.mem_cons_self) ran
    have free' := aligned.scopes.global_free (aligned.functions name List.mem_cons_self) free
    have same := related.same W l goes
    refine ⟨(), l.bind .global name ⟨kind, w⟩, W, .always fun _ _ => ?_,
      .frames (l.bind_memory ..) (aligned.matched.declareGlobal free' same.plain_right) ?_ (evolves free'), trivial⟩
    · refine Eval.bind_eq_ok.mpr ⟨l, ⟨l, ()⟩, rfl, ?_⟩
      rw [show l.global? name = none from free']
      exact Eval.attempt_eq_ok.mpr ⟨State.declareFault?_eq_none.mpr free', rfl⟩
    · rw [(evolves free).scope fit.sober.lexical, (evolves free').scope aligned.matched.lexical, State.bind_steps]
      exact aligned.scopes.declareGlobal fit.sober.lexical.nonempty aligned.matched.lexical.nonempty ⟨rfl, .plain same⟩

/-! ## Arrays and functions -/

/-- Both runs make an array of related elements. -/
theorem newArray {vs ws : List Value} (elements : List.Forall₂ (Related s C) vs ws) :
    Sim settings N .idle s C (Eval.allocate (·.newArray vs.toArray)) (fun _ _ => Eval.allocate (·.newArray ws.toArray))
      fun s' C' r q => Related s' C' (.array r) (.array q) := by
  have has : ∀ v ∈ vs.toArray, s.memory.Has v := by
    intro v member
    obtain ⟨w, -, related⟩ := exists_of_mem_left elements (List.mem_toArray.mp member)
    exact related.has
  have evolves : Evolves .idle s { s with memory := (s.memory.newArray vs.toArray).2 } :=
    .remember _ (fun _ inside => ⟨inside, rfl⟩) (.push _ _) (Nat.le_refl _)
  have here : Memory.Has (s.memory.newArray vs.toArray).2 (.array ⟨s.memory.arrays.size⟩) := by
    refine ⟨rfl, fun r same => ?_⟩
    cases same
    show s.memory.arrays.size < (s.memory.arrays.push vs.toArray).size
    rw [Array.size_push]
    exact Nat.lt_succ_self _
  refine ⟨fun fit a m ran => ?_, fun W l goes fit a m ran within M H aligned => ?_⟩
  · cases ran
    exact ⟨evolves, fit.sober.newArray has, .alone here⟩
  · cases ran
    have same : List.Forall₂ W.Same vs.toArray.toList ws.toArray.toList := elements.imp fun v w related => related.same W l goes
    have made : H[s.memory.arrays.size]? = some vs.toArray := by
      refine aligned.heap s.memory.arrays.size _ ?_
      show (s.memory.arrays.push vs.toArray)[s.memory.arrays.size]? = _
      rw [Array.getElem?_push_size]
    have between : Produced s { s with memory := (s.memory.newArray vs.toArray).2 } (.array s.memory.arrays.size) :=
      ⟨Nat.le_refl _, here.inside _ rfl⟩
    have grown := Pairing.Grows.array W s.memory.arrays.size
    refine ⟨_, { l with memory := (l.memory.newArray ws.toArray).2 }, { W with arrays := W.arrays ++ [s.memory.arrays.size] },
      .always fun _ _ => rfl, ⟨grown, aligned.matched.newArray made same (aligned.unclaimed _ between),
        aligned.scopes.change grown (Nat.le_refl _) (fun _ _ _ => id) (fun _ _ _ => rfl) (fun _ _ _ => rfl),
        .remember _ (fun _ inside => ⟨inside, rfl⟩) (.push _ _) (Nat.le_refl _), fun _ => id, fun _ _ _ => .inl,
        fun ticket claimed => ?_⟩, .along here (.array ?_)⟩
    · obtain ⟨c, claims⟩ := claimed
      rcases claims.of_newArray with old | ⟨-, rfl⟩
      · exact .inl ⟨c, old⟩
      · exact .inr between
    · exact getElem?_concat.mpr (.inr ⟨aligned.matched.stored.arrays.symm, rfl⟩)

/-- Both runs make a function. -/
theorem newClosure (name : Option String) (params : List Node) (body : Node) :
    Sim settings N .idle s C (Eval.newClosure name params body) (fun _ _ => Eval.newClosure name params body)
      fun s' C' v w => Related s' C' v w ∧ ∃ c, v = .closure c ∧ c.body = body := by
  refine first (ofExcept (Q := fun _ _ ps qs => ps = qs) (fun _ _ => rfl) fun _ _ _ ps found => ⟨ps, found, rfl⟩)
    fun s C params params' _ same => ?_
  subst same
  have has : Memory.Has (s.memory.newClosure name params body).2 (.closure (s.memory.newClosure name params body).1) :=
    ⟨rfl, nofun⟩
  have evolves : Evolves .idle s { s with memory := (s.memory.newClosure name params body).2 } :=
    .remember _ (fun _ inside => ⟨inside, rfl⟩) (.refl _) (Nat.le_succ _)
  refine ⟨fun fit a m ran => ?_, fun W l goes fit a m ran within M H aligned => ?_⟩
  · cases ran
    exact ⟨evolves, fit.sober.newClosure name params body, .alone has, _, rfl, rfl⟩
  · cases ran
    have between : Produced s { s with memory := (s.memory.newClosure name params body).2 } (.closure s.memory.closures) :=
      ⟨Nat.le_refl _, Nat.lt_succ_self _⟩
    have grown := Pairing.Grows.closure W s.memory.closures
    refine ⟨_, { l with memory := (l.memory.newClosure name params body).2 },
      { W with closures := W.closures ++ [s.memory.closures] }, .always fun _ _ => rfl,
      ⟨grown, aligned.matched.newClosure name params body (aligned.unclaimed _ between),
        aligned.scopes.change grown (Nat.le_refl _) (fun _ _ _ => id) (fun _ _ _ => rfl) (fun _ _ _ => rfl),
        .remember _ (fun _ inside => ⟨inside, rfl⟩) (.refl _) (Nat.le_succ _), fun _ => id, fun _ _ _ => .inl,
        fun ticket claimed => ?_⟩, .along has (.closure ?_ rfl rfl rfl), _, rfl, rfl⟩
    · obtain ⟨c, claims⟩ := claimed
      rcases claims.of_newClosure with old | ⟨-, rfl⟩
      · exact .inl ⟨c, old⟩
      · exact .inr between
    · exact getElem?_concat.mpr (.inr ⟨aligned.matched.stored.closures.symm, rfl⟩)

end Sim
end MiniC
