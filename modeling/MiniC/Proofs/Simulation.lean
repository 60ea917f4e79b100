import MiniC.Proofs.Companion

/-!
# Simulation

The evaluation of orderly code by a strict run and by a lazy run that goes along with it.
The rules say how it is put together: what the strict run does by itself, and that the
lazy run gets along with it to related results. Since names are known only as far as the
code mentions them, and since a thunk may be computed long after the strict run has
evaluated its initialiser, the rules say all this of any two corresponding states.
-/

namespace MiniC
variable {α β : Type}

/-! ## Runs that go along -/

/-- What an evaluation from `s` to `s'` relies on in the lazy run. It may look up and
    declare what its facts tell; nobody has claimed what it makes; and all thunks that
    are being computed put off evaluations that ended after `N` steps or later. -/
structure Aligned (settings : Settings) (N : Nat) (M : FrameRef → String → Prop) (H : Array (Array Value)) (f : Facts)
    (W : Pairing) (s s' l : State) : Prop where
  matched : Matched settings H W l
  heap : Extends s'.memory.arrays H
  scopes : Scopes W M (s.steps + 1) s l s.scope l.scope
  mentions (x : String) : x ∈ f.mentions → ∀ r ∈ s.scope, r ≠ .global → M r x
  declares (x : String) : x ∈ f.declares → M s.top x
  functions (x : String) : x ∈ f.functions → M .global x
  newest : f.declares ≠ [] → l.Newest
  clear (t : ThunkRef) (b : Backing) (x : String) : W.backings[t.index]? = some b →
    (l.memory.thunk t).phase = .pending → (l.memory.thunk t).home = l.top → x ∈ f.declares → x ∉ b.initial.facts.mentions
  unclaimed (ticket : Ticket) : Produced s s' ticket → ¬ Claimed W l ticket
  limit (t : ThunkRef) (b : Backing) : W.backings[t.index]? = some b → (l.memory.thunk t).phase = .forcing →
    N ≤ b.finish.steps

/-- What such an evaluation has done to the lazy run. Thunks that wait now did so before,
    or have lost their frame, or are among those that the facts tell. -/
structure Forward (settings : Settings) (M : FrameRef → String → Prop) (H : Array (Array Value)) (f : Facts)
    (W : Pairing) (s s' l : State) (W' : Pairing) (l' : State) : Prop where
  grown : W.Grows W'
  matched : Matched settings H W' l'
  scopes : Scopes W' M (s'.steps + 1) s' l' s'.scope l'.scope
  evolves : Evolves f l l'
  forcing (t : ThunkRef) : (l'.memory.thunk t).phase = .forcing → (l.memory.thunk t).phase = .forcing
  waiting (t : ThunkRef) (b : Backing) : W'.backings[t.index]? = some b → (l'.memory.thunk t).phase = .pending →
    (l.memory.thunk t).phase = .pending ∨ (l'.memory.thunk t).home ∉ l.chain ∨
      ((l'.memory.thunk t).home = l.top ∧ b.initial.facts.mentions ∈ f.delayed)
  claims (ticket : Ticket) : Claimed W' l' ticket → Claimed W l ticket ∨ Produced s s' ticket

/-- The lazy run that goes along with a strict one, if there is one. -/
abbrev Companion := Option (Pairing × State)

/-- A later moment of a strict run, with its companion or without. -/
structure Later (s : State) (C : Companion) (s' : State) (C' : Companion) : Prop where
  larger : s.memory.arrays.size ≤ s'.memory.arrays.size
  grown (W' : Pairing) (l' : State) : C' = some (W', l') → ∃ W l, C = some (W, l) ∧ W.Grows W'

/-- What the strict run may rely on by itself. -/
structure Fit (f : Facts) (s : State) : Prop where
  ok : f.ok = true
  sober : s.Sober
  fresh (x : String) (kind : Kind) (c : Closure) : x ∈ f.functions → s.get? .global x ≠ some ⟨kind, .closure c⟩

/-- Evaluations of a lazy run, by the limit of calls inside each other and the fuel. -/
abbrev Lazily (α : Type) := Nat → Nat → Eval Unit α

/-- With enough fuel and under a generous limit the evaluation succeeds, always alike. -/
def Settles (y : Lazily α) (l : State) (b : α) (l' : State) : Prop :=
  ∃ enough, ∀ limit fuel, enough ≤ limit → enough ≤ fuel → y limit fuel ⟨l, ()⟩ = .ok b ⟨l', ()⟩

/-- When the strict evaluation `x` succeeds, it does what its facts tell. If it ends after
    no more than `N` steps, the companion gets along with it: the lazy evaluation `y`
    settles. The results are related by `Q`. -/
structure Sim (settings : Settings) (N : Nat) (f : Facts) (s : State) (C : Companion) (x : Eval Unit α) (y : Lazily α)
    (Q : State → Companion → α → α → Prop) : Prop where
  alone : Fit f s → ∀ a m, x ⟨s, ()⟩ = .ok a m → Evolves f s m.state ∧ m.state.Sober ∧ Q m.state none a a
  along (W : Pairing) (l : State) : C = some (W, l) → Fit f s → ∀ a m, x ⟨s, ()⟩ = .ok a m → m.state.steps ≤ N →
    ∀ M H, Aligned settings N M H f W s m.state l →
      ∃ b l' W', Settles y l b l' ∧ Forward settings M H f W s m.state l W' l' ∧ Q m.state (some (W', l')) a b

namespace Settles
variable {l l' l'' : State}

theorem bind {y : Lazily α} {k : Nat → Nat → α → Eval Unit β} {a : α} {b : β} (h : Settles y l a l')
    (h' : Settles (fun limit fuel => k limit fuel a) l' b l'') :
    Settles (fun limit fuel => y limit fuel >>= k limit fuel) l b l'' := by
  obtain ⟨n, first⟩ := h
  obtain ⟨n', second⟩ := h'
  refine ⟨max n n', fun limit fuel wide long => Eval.bind_eq_ok.mpr ⟨a, ⟨l', ()⟩, ?_, ?_⟩⟩
  · exact first limit fuel (Nat.le_trans (Nat.le_max_left n n') wide) (Nat.le_trans (Nat.le_max_left n n') long)
  · exact second limit fuel (Nat.le_trans (Nat.le_max_right n n') wide) (Nat.le_trans (Nat.le_max_right n n') long)

theorem always {y : Lazily α} {b : α} (h : ∀ limit fuel, y limit fuel ⟨l, ()⟩ = .ok b ⟨l', ()⟩) : Settles y l b l' :=
  ⟨0, fun limit fuel _ _ => h limit fuel⟩

end Settles

/-! ## What goes along -/

theorem Produced.left {s s' s'' : State} {ticket : Ticket} (arrays : s'.memory.arrays.size ≤ s''.memory.arrays.size)
    (closures : s'.memory.closures ≤ s''.memory.closures) (h : Produced s s' ticket) : Produced s s'' ticket := by
  cases ticket with
  | array i => exact ⟨h.1, Nat.lt_of_lt_of_le h.2 arrays⟩
  | closure i => exact ⟨h.1, Nat.lt_of_lt_of_le h.2 closures⟩

theorem Produced.right {s s' s'' : State} {ticket : Ticket} (arrays : s.memory.arrays.size ≤ s'.memory.arrays.size)
    (closures : s.memory.closures ≤ s'.memory.closures) (h : Produced s' s'' ticket) : Produced s s'' ticket := by
  cases ticket with
  | array i => exact ⟨Nat.le_trans arrays h.1, h.2⟩
  | closure i => exact ⟨Nat.le_trans closures h.1, h.2⟩

theorem Produced.disjoint {s s' s'' : State} {ticket : Ticket} (h : Produced s s' ticket) : ¬ Produced s' s'' ticket := by
  cases ticket with
  | array i => exact fun h' => Nat.not_lt.mpr h'.1 h.2
  | closure i => exact fun h' => Nat.not_lt.mpr h'.1 h.2

namespace Later
variable {s s' : State} {C : Companion}

theorem refl (s : State) (C : Companion) : Later s C s C :=
  ⟨Nat.le_refl _, fun W' l' same => ⟨W', l', same, .refl W'⟩⟩

/-- The strict run goes on by itself. -/
theorem alone (larger : s.memory.arrays.size ≤ s'.memory.arrays.size) : Later s C s' none := ⟨larger, nofun⟩

end Later

namespace Fit
variable {f g : Facts} {s s' : State}

theorem weaken (h : Fit g s) (le : f.Within g) : Fit f s :=
  ⟨le.ok h.ok, h.sober, fun x kind c member => h.fresh x kind c (le.functions member)⟩

/-- What is put off declares no functions. -/
theorem of_delay (ok : f.delay.ok = true) (sober : s.Sober) : Fit f s := by
  obtain ⟨ok, -, -, functions⟩ := Facts.delay_ok.mp ok
  refine ⟨ok, sober, fun x kind c member => ?_⟩
  rw [functions] at member
  cases member

/-- The first part leaves to the second what this needs. -/
theorem next (h : Fit (f.seq g) s) (evolves : Evolves f s s') (sober : s'.Sober) : Fit g s' := by
  obtain ⟨-, ok, -, distinct⟩ := Facts.seq_ok.mp h.ok
  refine ⟨ok, sober, fun x kind c member found => ?_⟩
  rcases evolves.added 0 x _ h.sober.lexical.nonempty found with old | ⟨-, -, bindable⟩ | ⟨-, declared⟩
  · exact h.fresh x kind c (List.mem_append_right _ member) old
  · exact bindable rfl
  · exact distinct x declared member

end Fit

namespace Aligned
variable {settings : Settings} {N : Nat} {M : FrameRef → String → Prop} {H : Array (Array Value)} {f g : Facts}
variable {W W' : Pairing} {s s' s'' l l' : State}

theorem weaken (h : Aligned settings N M H g W s s' l) (le : f.Within g) : Aligned settings N M H f W s s' l := by
  refine { h with
    mentions := fun x member => h.mentions x (le.mentions member)
    declares := fun x member => h.declares x (le.declares member)
    functions := fun x member => h.functions x (le.functions member)
    newest := fun some => h.newest fun none => some (List.subset_nil.mp (none ▸ le.declares))
    clear := fun t b x backed waits home member => h.clear t b x backed waits home (le.declares member) }

/-- A part that ends earlier. -/
theorem sooner (h : Aligned settings N M H f W s s'' l) (evolves : Evolves g s' s'') : Aligned settings N M H f W s s' l :=
  { h with
    heap := evolves.arrays.trans h.heap
    unclaimed := fun ticket made => h.unclaimed ticket (made.left evolves.arrays.size evolves.closures) }

/-- The first part leaves to the second what this needs. -/
theorem next (h : Aligned settings N M H (f.seq g) W s s'' l) (ok : (f.seq g).ok = true) (sober : s.Sober)
    (strict : Evolves f s s') (forward : Forward settings M H f W s s' l W' l') :
    Aligned settings N M H g W' s' s'' l' := by
  obtain ⟨-, -, separate, -⟩ := Facts.seq_ok.mp ok
  refine ⟨forward.matched, h.heap, forward.scopes, fun x member r seen => ?_, fun x member => ?_, fun x member => ?_,
    fun some => ?_, fun t b x backed waits home member => ?_, fun ticket made => ?_, fun t b backed forcing => ?_⟩
  · rw [strict.scope sober.lexical] at seen
    exact h.mentions x (List.mem_append_right _ member) r seen
  · rw [strict.top]
    exact h.declares x (List.mem_append_right _ member)
  · exact h.functions x (List.mem_append_right _ member)
  · have newest := h.newest fun none => some (List.append_eq_nil_iff.mp none).2
    unfold State.Newest
    rw [forward.evolves.chain, forward.evolves.top]
    exact newest
  · rw [forward.evolves.top] at home
    rcases forward.waiting t b backed waits with old | gone | ⟨-, delayed⟩
    · have inside := Memory.lt_of_phase fun v same => by rw [old] at same; cases same
      refine h.clear t b x (forward.grown.backed_before (by rw [h.matched.backings]; exact inside) backed) old ?_
        (List.mem_append_right _ member)
      rw [← home]
      exact (forward.evolves.grows.thunks t inside).2.symm
    · rw [home, l.chain_eq] at gone
      exact absurd List.mem_cons_self gone
    · exact fun mentioned => separate x (List.mem_flatten.mpr ⟨_, delayed, mentioned⟩) member
  · intro claimed
    rcases forward.claims ticket claimed with old | made'
    · exact h.unclaimed ticket (made.right strict.arrays.size strict.closures) old
    · exact made'.disjoint made
  · have old := forward.forcing t forcing
    have inside := Memory.lt_of_phase fun v same => by rw [old] at same; cases same
    exact h.limit t b (forward.grown.backed_before (by rw [h.matched.backings]; exact inside) backed) old

end Aligned

namespace Forward
variable {settings : Settings} {N : Nat} {M : FrameRef → String → Prop} {H : Array (Array Value)} {f g : Facts}
variable {W W' W'' : Pairing} {s s' s'' l l' l'' : State}

theorem weaken (h : Forward settings M H f W s s' l W' l') (le : f.Adds g) : Forward settings M H g W s s' l W' l' := by
  refine { h with
    evolves := h.evolves.weaken le
    waiting := fun t b backed waits => ?_ }
  rcases h.waiting t b backed waits with old | gone | ⟨home, delayed⟩
  · exact .inl old
  · exact .inr (.inl gone)
  · exact .inr (.inr ⟨home, le.delayed delayed⟩)

/-- The lazy run stays where it is. -/
theorem refl (h : Matched settings H W l) (scopes : Scopes W M (s'.steps + 1) s' l s'.scope l.scope) :
    Forward settings M H f W s s' l W l :=
  ⟨.refl W, h, scopes, .refl f l, fun _ => id, fun _ _ _ => .inl, fun _ => .inl⟩

/-- The memory of the lazy run stays as it is. -/
theorem frames (memory : l'.memory = l.memory) (h : Matched settings H W l')
    (scopes : Scopes W M (s'.steps + 1) s' l' s'.scope l'.scope) (evolves : Evolves f l l') :
    Forward settings M H f W s s' l W l' := by
  refine ⟨.refl W, h, scopes, evolves, fun t forcing => ?_, fun t b backed waits => ?_, fun ticket claimed => ?_⟩
  · rwa [memory] at forcing
  · rw [memory] at waits
    exact .inl waits
  · obtain ⟨c, claims⟩ := claimed
    exact .inl ⟨c, claims.release fun t waits => by rwa [memory] at waits⟩

theorem trans (h : Forward settings M H f W s s' l W' l') (h' : Forward settings M H g W' s' s'' l' W'' l'')
    (strict : Evolves f s s') (strict' : Evolves g s' s'') : Forward settings M H (f.seq g) W s s'' l W'' l'' := by
  refine ⟨h.grown.trans h'.grown, h'.matched, h'.scopes, h.evolves.trans h'.evolves,
    fun t forcing => h.forcing t (h'.forcing t forcing), fun t b backed waits => ?_, fun ticket claimed => ?_⟩
  · rcases h'.waiting t b backed waits with old | gone | ⟨home, delayed⟩
    · have inside := Memory.lt_of_phase fun v same => by rw [old] at same; cases same
      have home := (h'.evolves.grows.thunks t inside).2
      rcases h.waiting t b (h'.grown.backed_before (by rw [h.matched.backings]; exact inside) backed) old
        with old | gone | ⟨here, delayed⟩
      · exact .inl old
      · exact .inr (.inl (by rw [home]; exact gone))
      · exact .inr (.inr ⟨home.trans here, List.mem_append_left _ delayed⟩)
    · exact .inr (.inl (by rw [← h.evolves.chain]; exact gone))
    · exact .inr (.inr ⟨home.trans h.evolves.top, List.mem_append_right _ delayed⟩)
  · rcases h'.claims ticket claimed with old | made
    · rcases h.claims ticket old with old | made
      · exact .inl old
      · exact .inr (made.left strict'.arrays.size strict'.closures)
    · exact .inr (made.right strict.arrays.size strict.closures)

end Forward

/-! ## Rules -/

namespace Sim
variable {settings : Settings} {N : Nat} {f g : Facts} {s : State} {C : Companion}
variable {Q : State → Companion → α → α → Prop} {R : State → Companion → β → β → Prop}

theorem weaken {x : Eval Unit α} {y : Lazily α} (h : Sim settings N f s C x y Q) (le : f.Within g) :
    Sim settings N g s C x y Q where
  alone fit a m ran := by
    obtain ⟨evolves, sober, related⟩ := h.alone (fit.weaken le) a m ran
    exact ⟨evolves.weaken le.toAdds, sober, related⟩
  along W l goes fit a m ran within M H aligned := by
    obtain ⟨b, l', W', settles, forward, related⟩ := h.along W l goes (fit.weaken le) a m ran within M H (aligned.weaken le)
    exact ⟨b, l', W', settles, forward.weaken le.toAdds, related⟩

theorem conclude {Q' : State → Companion → α → α → Prop} {x : Eval Unit α} {y : Lazily α} (h : Sim settings N f s C x y Q)
    (weaker : ∀ s' C' a b, Q s' C' a b → Q' s' C' a b) : Sim settings N f s C x y Q' where
  alone fit a m ran := by
    obtain ⟨evolves, sober, related⟩ := h.alone fit a m ran
    exact ⟨evolves, sober, weaker _ _ _ _ related⟩
  along W l goes fit a m ran within M H aligned := by
    obtain ⟨b, l', W', settles, forward, related⟩ := h.along W l goes fit a m ran within M H aligned
    exact ⟨b, l', W', settles, forward, weaker _ _ _ _ related⟩

theorem pure {a b : α} (alone : Q s none a a) (along : Q s C a b) : Sim settings N f s C (pure a) (fun _ _ => pure b) Q where
  alone fit a' m ran := by
    obtain ⟨rfl, rfl⟩ := Eval.pure_eq_ok.mp ran
    exact ⟨.refl f s, fit.sober, alone⟩
  along W l goes fit a' m ran within M H aligned := by
    obtain ⟨rfl, rfl⟩ := Eval.pure_eq_ok.mp ran
    exact ⟨b, l, W, .always fun _ _ => rfl, .refl aligned.matched aligned.scopes, goes ▸ along⟩

/-- Only what the lazy evaluation does with enough fuel matters. -/
theorem eventually {x : Eval Unit α} {y y' : Lazily α} (h : Sim settings N f s C x y' Q) (n : Nat)
    (same : ∀ limit fuel, n ≤ fuel → y limit fuel = y' limit fuel) : Sim settings N f s C x y Q := by
  refine ⟨h.alone, fun W l goes fit a m ran within M H aligned => ?_⟩
  obtain ⟨b, l', W', ⟨enough, settled⟩, forward, related⟩ := h.along W l goes fit a m ran within M H aligned
  refine ⟨b, l', W', ⟨max n enough, fun limit fuel wide long => ?_⟩, forward, related⟩
  rw [same limit fuel (Nat.le_trans (Nat.le_max_left n enough) long)]
  exact settled limit fuel (Nat.le_trans (Nat.le_max_right n enough) wide) (Nat.le_trans (Nat.le_max_right n enough) long)

/-- What fails on the strict side need not be followed. -/
theorem fails {x : Eval Unit α} {y : Lazily α} (h : ∀ a m, x ⟨s, ()⟩ ≠ .ok a m) : Sim settings N f s C x y Q :=
  ⟨fun _ a m ran => absurd ran (h a m), fun _ _ _ _ a m ran => absurd ran (h a m)⟩

theorem fail {y : Lazily α} (e : EvalError) : Sim settings N f s C (Eval.fail e) y Q := fails fun _ _ => Eval.fail_ne_ok

theorem stop {y : Lazily α} (i : Interrupt) : Sim settings N f s C (throw i) y Q := fails fun _ _ => Eval.throw_ne_ok

/-- One thing after the other. The second is to be known for whatever results of the
    first are related, and for that of the strict run by itself. -/
theorem bind {x : Eval Unit α} {y : Lazily α} {k : α → Eval Unit β} {k' : Nat → Nat → α → Eval Unit β}
    (hx : Sim settings N f s C x y Q) (hk : ∀ s' C' a b, Later s C s' C' → Q s' C' a b →
      Sim settings N g s' C' (k a) (fun limit fuel => k' limit fuel b) R) :
    Sim settings N (f.seq g) s C (x >>= k) (fun limit fuel => y limit fuel >>= k' limit fuel) R where
  alone fit c m ran := by
    obtain ⟨a, m₁, first, second⟩ := Eval.bind_eq_ok.mp ran
    obtain ⟨evolves, sober, related⟩ := hx.alone (fit.weaken (Facts.within_seq_left f g)) a m₁ first
    obtain ⟨evolves', sober', related'⟩ := (hk m₁.state none a a (.alone evolves.arrays.size) related).alone
      (fit.next evolves sober) c m second
    exact ⟨evolves.trans evolves', sober', related'⟩
  along W l goes fit c m ran within M H aligned := by
    obtain ⟨a, m₁, first, second⟩ := Eval.bind_eq_ok.mp ran
    obtain ⟨evolves, sober, related⟩ := hx.alone (fit.weaken (Facts.within_seq_left f g)) a m₁ first
    have fit' := fit.next evolves sober
    obtain ⟨evolves', -, -⟩ := (hk m₁.state none a a (.alone evolves.arrays.size) related).alone fit' c m second
    obtain ⟨b, l₁, W₁, settles, forward, related⟩ := hx.along W l goes (fit.weaken (Facts.within_seq_left f g)) a m₁ first
      (Nat.le_trans evolves'.steps within) M H ((aligned.sooner evolves').weaken (Facts.within_seq_left f g))
    have later : Later s C m₁.state (some (W₁, l₁)) :=
      ⟨evolves.arrays.size, fun W' l' same => by cases same; exact ⟨W, l, goes, forward.grown⟩⟩
    obtain ⟨d, l₂, W₂, settles', forward', related'⟩ := (hk m₁.state _ a b later related).along W₁ l₁ rfl fit' c m second
      within M H (aligned.next fit.ok fit.sober evolves forward)
    exact ⟨d, l₂, W₂, settles.bind settles', forward.trans forward' evolves evolves', related'⟩

/-- Something that declares nothing comes first. -/
theorem first {x : Eval Unit α} {y : Lazily α} {k : α → Eval Unit β} {k' : Nat → Nat → α → Eval Unit β}
    (hx : Sim settings N .idle s C x y Q) (hk : ∀ s' C' a b, Later s C s' C' → Q s' C' a b →
      Sim settings N g s' C' (k a) (fun limit fuel => k' limit fuel b) R) :
    Sim settings N g s C (x >>= k) (fun limit fuel => y limit fuel >>= k' limit fuel) R := by
  have whole := bind hx hk
  rwa [Facts.idle_seq] at whole

/-- Something that declares nothing comes last. -/
theorem last {x : Eval Unit α} {y : Lazily α} {k : α → Eval Unit β} {k' : Nat → Nat → α → Eval Unit β}
    (hx : Sim settings N f s C x y Q) (hk : ∀ s' C' a b, Later s C s' C' → Q s' C' a b →
      Sim settings N .idle s' C' (k a) (fun limit fuel => k' limit fuel b) R) :
    Sim settings N f s C (x >>= k) (fun limit fuel => y limit fuel >>= k' limit fuel) R := by
  have whole := bind hx hk
  rwa [Facts.seq_idle] at whole

theorem ofExcept {x y : Except EvalError α} (alone : ∀ a, x = .ok a → Q s none a a)
    (along : ∀ W l, C = some (W, l) → ∀ a, x = .ok a → ∃ b, y = .ok b ∧ Q s C a b) :
    Sim settings N f s C (Eval.ofExcept x) (fun _ _ => Eval.ofExcept y) Q := by
  cases x with
  | error e => exact fail e
  | ok a =>
    cases C with
    | none =>
      have done : Sim settings N f s none (Pure.pure a) (fun _ _ => Pure.pure a) Q := pure (alone a rfl) (alone a rfl)
      exact ⟨done.alone, nofun⟩
    | some companion =>
      obtain ⟨W, l⟩ := companion
      obtain ⟨b, rfl, related⟩ := along W l rfl a rfl
      exact pure (alone a rfl) related

end Sim

/-! ## Related results -/

/-- Values of one shape. -/
inductive Value.Like : Value → Value → Prop
  | void : Like .void .void
  | number (x : Float) : Like (.number x) (.number x)
  | bool (b : Bool) : Like (.bool b) (.bool b)
  | closure {c d : Closure} (name : d.name = c.name) (params : d.params = c.params) (body : d.body = c.body) :
      Like (.closure c) (.closure d)
  | builtin (f : Builtin) : Like (.builtin f) (.builtin f)
  | array (r q : ArrayRef) : Like (.array r) (.array q)

/-- A truth value, a number or nothing. -/
inductive Value.Scalar : Value → Prop
  | void : Scalar .void
  | number (x : Float) : Scalar (.number x)
  | bool (b : Bool) : Scalar (.bool b)

/-- A plain value of the strict run and that of its companion. -/
structure Related (s : State) (C : Companion) (v w : Value) : Prop where
  has : s.memory.Has v
  like : v.Like w
  same (W : Pairing) (l : State) : C = some (W, l) → W.Same v w

/-- A value of the strict run and what its companion has for it, perhaps a thunk that puts
    off what was evaluated before so many steps. -/
structure Promised (k : Nat) (s : State) (C : Companion) (v w : Value) : Prop where
  has : s.memory.Has v
  bound (W : Pairing) (l : State) : C = some (W, l) → W.Bound k v w ∧ l.Held w

/-- Completions without thunks. -/
inductive Concluded (s : State) (C : Companion) : Completion → Completion → Prop
  | normal {v w : Value} (related : Related s C v w) : Concluded s C (.normal v) (.normal w)
  | jump (j : Jump) (span : Option Span) : Concluded s C (.jump j span) (.jump j span)
  | returned {v w : Value} (related : Related s C v w) : Concluded s C (.returned v) (.returned w)

/-- Completions, perhaps with a thunk. -/
inductive Completed (k : Nat) (s : State) (C : Companion) : Completion → Completion → Prop
  | normal {v w : Value} (promised : Promised k s C v w) : Completed k s C (.normal v) (.normal w)
  | jump (j : Jump) (span : Option Span) : Completed k s C (.jump j span) (.jump j span)
  | returned {v w : Value} (related : Related s C v w) : Completed k s C (.returned v) (.returned w)

/-! ### Scalars -/

theorem Kind.scalar_zero (k : Kind) : k.zero.Scalar := by
  unfold Kind.zero
  split
  · exact .void
  · split
    · exact .bool false
    · exact .number 0.0

theorem BinaryOp.scalar_onNumbers {op : BinaryOp} {x y : Float} {span : Option Span} {v : Value}
    (h : op.onNumbers x y span = .ok v) : v.Scalar := by
  unfold onNumbers at h
  cases op <;> simp only at h <;> first | (cases h; constructor) | (split at h <;> cases h; constructor)

theorem UnaryOp.scalar_apply {op : UnaryOp} {v w : Value} {span : Option Span} (h : op.apply v span = .ok w) :
    w.Scalar := by
  unfold apply at h
  split at h <;> cases h <;> constructor

theorem Value.Scalar.cast {v w : Value} {kind : Kind} {span : Option Span} (h : v.Scalar)
    (fitted : v.cast kind span = .ok w) : w.Scalar := by
  unfold Value.cast at fitted
  cases h <;> grind [Scalar.void, Scalar.number, Scalar.bool]

theorem Builtin.scalar_run {f : Builtin} {arguments : List Value} {v : Value} {text : String}
    (h : f.run arguments = .ok (v, text)) : v.Scalar := by
  unfold run at h
  cases number : f.numberArgument arguments with
  | error e =>
    rw [number] at h
    cases h
  | ok x =>
    rw [number] at h
    cases f with
    | print =>
      cases h
      exact .void
    | putchar =>
      simp only [bind, Except.bind] at h
      cases found : character? x with
      | none =>
        rw [found] at h
        cases h
      | some c =>
        rw [found] at h
        cases h
        exact .number x
    | abs =>
      cases h
      exact .number x.abs

theorem Builtin.scalar_apply {f : Builtin} {arguments : List Value} {span : Option Span} {v : Value} {text : String}
    (h : f.apply arguments span = .ok (v, text)) : v.Scalar := by
  unfold apply at h
  simp only [bind, Except.bind] at h
  split at h
  · cases h
  · split at h
    · cases h
    · split at h
      · cases h
      · rename_i ran
        split at h
        · cases h
        · rename_i fitted
          cases h
          exact (scalar_run ran).cast fitted

theorem Pairing.Same.like {W : Pairing} {v w : Value} (h : W.Same v w) : v.Like w := by
  cases h with
  | void => exact .void
  | number x => exact .number x
  | bool b => exact .bool b
  | closure _ name params body => exact .closure name params body
  | builtin f => exact .builtin f
  | array => exact .array _ _

namespace Value

theorem Plain.like {v : Value} (h : v.Plain) : v.Like v := by
  cases v with
  | void => exact .void
  | number x => exact .number x
  | bool b => exact .bool b
  | closure c => exact .closure rfl rfl rfl
  | builtin f => exact .builtin f
  | array r => exact .array r r
  | «lazy» t => cases h

namespace Like
variable {v w : Value}

theorem truthy (h : v.Like w) : w.truthy = v.truthy := by cases h <;> rfl

theorem toNumber? (h : v.Like w) : w.toNumber? = v.toNumber? := by cases h <;> rfl

theorem toIndex? (h : v.Like w) : w.toIndex? = v.toIndex? := by cases h <;> rfl

end Like
end Value

namespace Related
variable {s s' : State} {C C' : Companion} {v w : Value}

theorem later (h : Related s C v w) (after : Later s C s' C') : Related s' C' v w := by
  refine ⟨h.has.mono after.larger, h.like, fun W' l' same => ?_⟩
  obtain ⟨W, l, goes, grown⟩ := after.grown W' l' same
  exact (h.same W l goes).mono grown

theorem alone {v : Value} (has : s.memory.Has v) : Related s none v v := ⟨has, has.plain.like, nofun⟩

theorem along {W : Pairing} {l : State} (has : s.memory.Has v) (same : W.Same v w) : Related s (some (W, l)) v w :=
  ⟨has, same.like, fun W' l' goes => by cases goes; exact same⟩

theorem promised (h : Related s C v w) (k : Nat) : Promised k s C v w :=
  ⟨h.has, fun W l goes => ⟨.plain (h.same W l goes), (h.same W l goes).plain_right.held l⟩⟩

/-- Scalars are the same for both runs. -/
theorem scalar (h : v.Scalar) : Related s C v v := by
  refine ⟨⟨?_, ?_⟩, ?_, fun W _ _ => ?_⟩
  · cases h <;> rfl
  · cases h <;> nofun
  · cases h <;> constructor
  · cases h <;> constructor

end Related

theorem Promised.alone {k : Nat} {s : State} {v : Value} (has : s.memory.Has v) : Promised k s none v v := ⟨has, nofun⟩

theorem Concluded.completed {s : State} {C : Companion} {c c' : Completion} (h : Concluded s C c c') (k : Nat) :
    Completed k s C c c' := by
  cases h with
  | normal related => exact .normal (related.promised k)
  | jump j span => exact .jump j span
  | returned related => exact .returned related

end MiniC
