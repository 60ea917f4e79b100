import MiniC.Proofs.Rules

/-!
# Frames and calls of both runs

Both runs take up a fresh frame, evaluate something in it and give it up. Meanwhile they
know of all names that the frame binds, since it bound none at first; afterwards the
scopes around it correspond as before.
-/

namespace MiniC
variable {α β : Type}

/-! ## Scopes of fresh frames -/

namespace State

theorem scope_pushInside (s : State) (tag : FrameTag) (parent : FrameRef) :
    (s.pushInside tag parent).2.scope = .numbered s.frames.size :: s.scopeOf parent := by
  show FrameRef.numbered s.frames.size :: ((s.pushInside tag parent).2.frame (.numbered s.frames.size)).around = _
  rw [frame_pushInside_self]
  rfl

theorem scope_enterCall {s : State} (L : s.Lexical) (name : String) (call : CallBoundary) :
    ((s.pushInside (.call name) .global).2.pushCall call).scope = [.numbered s.frames.size, .global] := by
  show (s.pushInside (.call name) .global).2.scope = _
  rw [scope_pushInside, L.scopeOf_global]

end State

/-- What is known of names, together with all that a fresh frame binds. -/
def FrameRef.opening (fresh : FrameRef) (M : FrameRef → String → Prop) (r : FrameRef) (x : String) : Prop :=
  r = fresh ∨ M r x

/-- Fresh frames bind nothing yet. -/
theorem Scopes.opened {W : Pairing} {M : FrameRef → String → Prop} {s l o o' : State} {rs rs' : List FrameRef}
    (S : Scopes W M (s.steps + 1) s l rs rs') (O : s.Opens o) (O' : l.Opens o') (L : s.Lexical) (L' : l.Lexical)
    (inside : ∀ r ∈ rs, r.number < s.frames.size) (inside' : ∀ r ∈ rs', r.number < l.frames.size) :
    Scopes W (FrameRef.opening (.numbered s.frames.size) M) (o.steps + 1) o o'
      (.numbered s.frames.size :: rs) (.numbered l.frames.size :: rs') := by
  refine .inner L.nonempty L'.nonempty (fun x _ => ?_) ?_
  · rw [O.get?_fresh, O'.get?_fresh]
    exact .free
  · refine S.change (.refl W) (Nat.le_of_eq (by rw [O.steps])) (fun r member x known => ?_) (fun r member x => ?_)
      fun r member x => ?_
    · rcases known with rfl | known
      · exact absurd (inside _ member) (Nat.lt_irrefl _)
      · exact known
    · obtain ⟨n, rfl⟩ := S.numbered.1 r member
      exact O.get? (inside _ member) x
    · obtain ⟨n, rfl⟩ := S.numbered.2 r member
      exact O'.get? (inside' _ member) x

section
variable {settings : Settings} {N : Nat} {M : FrameRef → String → Prop} {H : Array (Array Value)} {f g : Facts}
variable {W W' : Pairing} {s s' l l' o o' c c' : State} {rs rs' : List FrameRef}

theorem Produced.same {ticket : Ticket} (before : o.memory = s.memory) (after : s'.memory = c.memory) :
    Produced o c ticket ↔ Produced s s' ticket := by
  cases ticket with
  | array i => simp only [Produced, before, after]
  | closure i => simp only [Produced, before, after]

/-- What is evaluated in fresh frames may rely on what the evaluation of the whole may. -/
theorem Aligned.opened (h : Aligned settings N M H g W s s' l) (O : s.Opens o) (O' : l.Opens o') (L : s.Lexical)
    (matched : Matched settings H W o') (after : s'.memory = c.memory)
    (scope : o.scope = .numbered s.frames.size :: rs) (scope' : o'.scope = .numbered l.frames.size :: rs')
    (rest : Scopes W M (s.steps + 1) s l rs rs') (inside : ∀ r ∈ rs, r.number < s.frames.size)
    (inside' : ∀ r ∈ rs', r.number < l.frames.size) (mentions : ∀ x ∈ f.mentions, ∀ r ∈ rs, r ≠ .global → M r x)
    (functions : ∀ x ∈ f.functions, M .global x) :
    Aligned settings N (FrameRef.opening (.numbered s.frames.size) M) H f W o c o' := by
  have older (t : ThunkRef) (b : Backing) (backed : W.backings[t.index]? = some b) :
      (l.memory.thunk t).home ≠ .numbered l.frames.size := by
    obtain ⟨n, lt, home⟩ := (h.matched.backs t b backed).home
    rw [home]
    exact fun same => Nat.ne_of_lt lt (FrameRef.numbered.inj same)
  refine ⟨matched, after ▸ h.heap, ?_, fun x member r seen other => ?_, fun x _ => ?_,
    fun x member => .inr (functions x member), fun _ r below => ?_,
    fun t b x backed waits home => ?_, fun ticket made claimed => ?_, fun t b backed forcing => ?_⟩
  · rw [scope, scope']
    exact rest.opened O O' L h.matched.lexical inside inside'
  · rw [scope] at seen
    rcases List.mem_cons.mp seen with rfl | seen
    · exact .inl rfl
    · exact .inr (mentions x member r seen other)
  · rw [O.top]
    exact .inl rfl
  · rw [O'.chain] at below
    obtain ⟨n, lt, rfl⟩ := h.matched.lexical.inside_of_mem h.matched.lexical.stacked r below
    rw [O'.top]
    exact lt
  · rw [O'.memory, O'.top] at home
    exact absurd home (older t b backed)
  · obtain ⟨d, claims⟩ := claimed
    refine h.unclaimed ticket ((Produced.same O.memory after).mp made) ⟨d, claims.release fun t waits => ?_⟩
    rwa [O'.memory] at waits
  · rw [O'.memory] at forcing
    exact h.limit t b backed forcing

/-- When the frames are given up the thunks that waited for them no longer can be
    needed. -/
theorem Forward.closed (h : Forward settings (FrameRef.opening (.numbered s.frames.size) M) H f W o c o' W' c')
    (O : s.Opens o) (O' : l.Opens o') (K' : l.Closes c' l') (L' : l.Lexical) (after : s'.memory = c.memory)
    (matched : Matched settings H W' l') (scopes : Scopes W' M (s'.steps + 1) s' l' s'.scope l'.scope) :
    Forward settings M H f.inside W s s' l W' l' := by
  refine ⟨h.grown, matched, scopes, h.evolves.nested O' K', fun t forcing => ?_, fun t b backed waits => ?_,
    fun ticket claimed => ?_⟩
  · rw [K'.memory] at forcing
    rw [← O'.memory]
    exact h.forcing t forcing
  · rw [K'.memory] at waits ⊢
    rcases h.waiting t b backed waits with old | gone | ⟨home, -⟩
    · rw [O'.memory] at old
      exact .inl old
    · rw [O'.chain] at gone
      exact .inr (.inl fun held => gone (List.mem_cons_of_mem _ held))
    · refine .inr (.inl fun held => ?_)
      obtain ⟨n, lt, same⟩ := L'.inside_of_mem L'.stacked _ held
      rw [home, O'.top] at same
      exact Nat.ne_of_lt lt (FrameRef.numbered.inj same).symm
  · obtain ⟨d, claims⟩ := claimed
    rcases h.claims ticket ⟨d, claims.release fun t waits => by rwa [K'.memory] at waits⟩ with ⟨d, old⟩ | made
    · exact .inl ⟨d, old.release fun t waits => by rwa [O'.memory] at waits⟩
    · exact .inr ((Produced.same O.memory after).mp made)

end

theorem Fit.opened {f g : Facts} {s o : State} (h : Fit g s) (ok : f.ok = true) (O : s.Opens o) (sober : o.Sober)
    (functions : f.functions ⊆ g.functions) : Fit f o := by
  refine ⟨ok, sober, fun x kind c member => ?_⟩
  rw [show o.get? .global x = s.get? .global x from O.get? h.sober.lexical.nonempty x]
  exact h.fresh x kind c (functions member)

/-! ## Rules -/

namespace Sim
variable {settings : Settings} {N : Nat} {f : Facts} {s : State} {C : Companion}
variable {Q : State → Companion → α → α → Prop}

/-- Both runs evaluate something in a fresh frame inside the one on top. -/
theorem inFrame {x : Eval Unit α} {y : Lazily α} (tag : FrameTag)
    (lasting : ∀ s C s' C' a b, Later s C s' C' → Q s C a b → Q s' C' a b)
    (h : ∀ s' C', Sim settings N f s' C' x y Q) :
    Sim settings N f.inside s C (Eval.inFrame tag x) (fun limit fuel => Eval.inFrame tag (y limit fuel)) Q := by
  have O := s.opens_push tag
  refine ⟨fun fit a m ran => ?_, fun W l _ fit a m ran within M H aligned => ?_⟩
  · obtain ⟨m₁, evaluated, -, rfl⟩ := Eval.inFrame_eq_ok.mp ran
    obtain ⟨evolves, sober, related⟩ := (h (s.push tag).2 none).alone
      (fit.opened fit.ok O (fit.sober.pushInside tag (.inl rfl)) (List.Subset.refl _)) a m₁ evaluated
    refine ⟨evolves.nested O (State.closes_frame evolves.calls), sober.dropTop, lasting _ _ _ _ _ _ (.alone ?_) related⟩
    exact Nat.le_of_eq (by rw [State.dropTop_memory])
  · obtain ⟨m₁, evaluated, -, rfl⟩ := Eval.inFrame_eq_ok.mp ran
    have fit' : Fit f (s.push tag).2 := fit.opened fit.ok O (fit.sober.pushInside tag (.inl rfl)) (List.Subset.refl _)
    obtain ⟨evolves, -, -⟩ := (h (s.push tag).2 none).alone fit' a m₁ evaluated
    have K : s.Closes m₁.state m₁.state.dropTop := State.closes_frame evolves.calls
    have O' := l.opens_push tag
    have L := fit.sober.lexical
    have L' := aligned.matched.lexical
    have numbers {s : State} (L : s.Lexical) : ∀ r ∈ s.scope, r.number < s.frames.size :=
      fun r member => (L.numbered_of_mem_scope member).1
    have aligned' : Aligned settings N (FrameRef.opening (.numbered s.frames.size) M) H f W (s.push tag).2 m₁.state
        (l.push tag).2 :=
      aligned.opened O O' L (aligned.matched.pushInside tag (.inl rfl)) K.memory (s.scope_pushInside tag s.top)
        (l.scope_pushInside tag l.top) aligned.scopes (numbers L) (numbers L') aligned.mentions aligned.functions
    obtain ⟨b, l₁, W', settles, forward, related⟩ := (h _ _).along W _ rfl fit' a m₁ evaluated
      (by rwa [← K.steps]) _ H aligned'
    have K' : l.Closes l₁ l₁.dropTop := State.closes_frame forward.evolves.calls
    refine ⟨b, l₁.dropTop, W', ?_, forward.closed O O' K' L' K.memory forward.matched.dropTop ?_,
      lasting _ _ _ _ _ _ ?_ related⟩
    · obtain ⟨enough, settled⟩ := settles
      refine ⟨enough, fun limit fuel wide long => Eval.inFrame_eq_ok.mpr ⟨⟨l₁, ()⟩, settled limit fuel wide long, ?_, rfl⟩⟩
      exact State.popFault?_eq_none (r := .numbered _) forward.evolves.stack
    · rw [(evolves.nested O K).scope L, (forward.evolves.nested O' K').scope L', K.steps]
      have inner := forward.scopes
      rw [evolves.scope (L.pushInside tag (.inl rfl)), forward.evolves.scope (L'.pushInside tag (.inl rfl)),
        State.push, State.push, State.scope_pushInside, State.scope_pushInside] at inner
      have outer := inner.tail (List.cons_ne_nil _ _)
      refine outer.change (.refl W') (Nat.le_refl _) (fun _ _ _ known => .inr known) (fun r member x => ?_) fun r member x => ?_
      · obtain ⟨n, rfl⟩ := outer.numbered.1 r member
        exact evolves.get?_closed O K (numbers L _ member) x
      · obtain ⟨n, rfl⟩ := outer.numbered.2 r member
        exact forward.evolves.get?_closed O' K' (numbers L' _ member) x
    · exact ⟨Nat.le_of_eq (by rw [State.dropTop_memory]), fun W₁ l₁ same => by cases same; exact ⟨_, _, rfl, .refl _⟩⟩

/-- Both runs evaluate something in a call. It declares no functions, and what it mentions
    is not looked up around the call. -/
theorem inCall {x : Eval Unit α} {y : Lazily α} (name : String) (ok : f.ok = true) (functions : f.functions = [])
    (lasting : ∀ s C s' C' a b, Later s C s' C' → Q s C a b → Q s' C' a b)
    (h : ∀ s' C', Later s C s' C' → Sim settings N f s' C' x y Q) :
    Sim settings N .idle s C (Eval.inCall name x) (fun limit fuel => Eval.inCall name (y limit fuel)) Q := by
  have none : f.functions ⊆ [] := functions ▸ List.Subset.refl _
  let entered (s : State) : State := (s.pushInside (.call name) .global).2.pushCall ⟨name, s.top.number, s.frames.size⟩
  have O (s : State) : s.Opens (entered s) := s.opens_call name _
  refine ⟨fun fit a m ran => ?_, fun W l goes fit a m ran within M H aligned => ?_⟩
  · obtain ⟨m₁, evaluated, left⟩ := Eval.inCall_eq_ok.mp ran
    obtain ⟨-, -, -, -, -, -, -, rfl⟩ := Eval.leaveCall_eq_ok.mp left
    obtain ⟨evolves, sober, related⟩ := (h (entered s) .none (.alone (Nat.le_refl _))).alone
      (fit.opened ok (O s) ((fit.sober.pushInside (.call name) (.inr rfl)).restack rfl rfl rfl) none) a m₁ evaluated
    refine ⟨(evolves.nested (O s) (State.closes_call evolves.calls)).weaken (Facts.inside_adds_idle functions),
      sober.dropTop.restack rfl rfl rfl, lasting _ _ _ _ _ _ (.alone ?_) related⟩
    exact Nat.le_of_eq (congrArg (·.arrays.size) m₁.state.dropTop_memory.symm)
  · obtain ⟨m₁, evaluated, left⟩ := Eval.inCall_eq_ok.mp ran
    obtain ⟨-, -, -, -, -, -, -, rfl⟩ := Eval.leaveCall_eq_ok.mp left
    have fit' : Fit f (entered s) :=
      fit.opened ok (O s) ((fit.sober.pushInside (.call name) (.inr rfl)).restack rfl rfl rfl) none
    obtain ⟨evolves, -, -⟩ := (h (entered s) .none (.alone (Nat.le_refl _))).alone fit' a m₁ evaluated
    have K : s.Closes m₁.state m₁.state.dropTop.popCall := State.closes_call evolves.calls
    have L := fit.sober.lexical
    have L' := aligned.matched.lexical
    have outermost {s : State} (L : s.Lexical) : ∀ r ∈ [FrameRef.global], r.number < s.frames.size := by
      intro r member
      rw [List.mem_singleton.mp member]
      exact L.nonempty
    have global : Scopes W M (s.steps + 1) s l [.global] [.global] := aligned.scopes.outside
    have aligned' : Aligned settings N (FrameRef.opening (.numbered s.frames.size) M) H f W (entered s) m₁.state
        (entered l) := by
      refine aligned.opened (O s) (O l) L ((aligned.matched.pushInside (.call name) (.inr rfl)).tick rfl rfl rfl) K.memory
        (State.scope_enterCall L name _) (State.scope_enterCall L' name _) global (outermost L) (outermost L')
        (fun x _ r seen other => absurd (List.mem_singleton.mp seen) other) fun x member => ?_
      rw [functions] at member
      cases member
    have later : Later s C (entered s) (some (W, entered l)) :=
      ⟨Nat.le_refl _, fun W' l' same => by cases same; exact ⟨W, l, goes, .refl W⟩⟩
    obtain ⟨b, l₁, W', settles, forward, related⟩ := (h _ _ later).along W _ rfl fit' a m₁ evaluated
      (by rwa [← K.steps]) _ H aligned'
    have K' : l.Closes l₁ l₁.dropTop.popCall := State.closes_call forward.evolves.calls
    have outer := (evolves.nested (O s) K).weaken (Facts.inside_adds_idle functions)
    have outer' := (forward.evolves.nested (O l) K').weaken (Facts.inside_adds_idle functions)
    refine ⟨b, l₁.dropTop.popCall, W', ?_, (forward.closed (O s) (O l) K' L' K.memory
      (forward.matched.dropTop.tick rfl rfl rfl) ?_).weaken (Facts.inside_adds_idle functions), lasting _ _ _ _ _ _ ?_ related⟩
    · obtain ⟨enough, settled⟩ := settles
      refine ⟨enough, fun limit fuel wide long => Eval.inCall_eq_ok.mpr ⟨⟨l₁, ()⟩, settled limit fuel wide long, ?_⟩⟩
      refine Eval.leaveCall_eq_ok.mpr ⟨?_, State.popFault?_eq_none (r := .numbered _) forward.evolves.stack,
        _, _, forward.evolves.calls, rfl, ?_, rfl⟩
      · rw [forward.evolves.top, (O l).top]
        rfl
      · show l₁.dropTop.top.number = l.top.number
        rw [State.top, State.dropTop_stack, forward.evolves.stack]
        rfl
    · exact aligned.scopes.evolved L L' forward.grown outer outer'
    · refine ⟨Nat.le_of_eq (congrArg (·.arrays.size) m₁.state.dropTop_memory.symm), fun W₁ l₁ same => ?_⟩
      cases same
      exact ⟨_, _, rfl, .refl _⟩

end Sim
end MiniC
