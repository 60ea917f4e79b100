import MiniC.Proofs.Enclosing

/-!
# Putting off and computing

A declaration with an initialiser is evaluated by the strict run and put off by the lazy
one. When the lazy run computes the thunk at last, it goes along with that evaluation of
the strict run, which is over long since: the frame of the thunk still has all that the
initialiser mentions.
-/

namespace MiniC
variable {α β : Type}

/-! ## Visitors -/

/-- Visitors of both runs whose visits go along with each other, and so does the
    computation of thunks. -/
structure Visits (settings : Settings) (N : Nat) (inner : Visitor Unit)
    (inner' : Nat → Nat → Visitor Unit) : Prop where
  visit (n : Node) (tag : FrameTag) {s : State} {C : Companion} :
    Sim settings N n.facts s C (inner.visit n tag) (fun limit fuel => (inner' limit fuel).visit n tag)
      fun s' C' c c' => Completed s'.steps s' C' c c'
  force {s : State} {C : Companion} {v w : Value} : Promised s.steps s C v w →
    Sim settings N .idle s C (inner.force v) (fun limit fuel => (inner' limit fuel).force w) Related
  fuel (limit fuel : Nat) : (inner' limit fuel).fuel = fuel

theorem Promised.weaken {k k' : Nat} {s : State} {C : Companion} {v w : Value} (h : Promised k s C v w) (le : k ≤ k') :
    Promised k' s C v w :=
  ⟨h.has, fun W l goes => ⟨(h.bound W l goes).1.mono (.refl W) le, (h.bound W l goes).2⟩⟩

namespace Visits
variable {settings : Settings} {N : Nat} {inner : Visitor Unit} {inner' : Nat → Nat → Visitor Unit}
variable (V : Visits settings N inner inner') {s : State} {C : Companion}
include V

theorem expression (n : Node) : Sim settings N n.facts s C (inner.expression n)
    (fun limit fuel => (inner' limit fuel).expression n) fun s' C' v w => Promised s'.steps s' C' v w := by
  refine (V.visit n .block).last fun s' C' c c' _ completed => ?_
  cases completed with
  | normal promised => exact .pure (.alone promised.has) promised
  | jump | returned =>
    refine .fails fun _ _ ran => ?_
    obtain ⟨_, _, -, failed⟩ := Eval.bind_eq_ok.mp ran
    cases failed

theorem actual (n : Node) : Sim settings N n.facts s C (inner.actual n)
    (fun limit fuel => (inner' limit fuel).actual n) Related :=
  (V.expression n).last fun _ _ _ _ _ promised => V.force promised

end Visits

section
variable {settings : Settings} {N : Nat} {inner' : Nat → Nat → Visitor Unit}
variable {s : State} {C : Companion} {fuel : Nat} {initial : Node} {kind : Kind} {span : Option Span}

/-! ## Putting off -/

/-- What the strict run does with an initialiser. -/
def Settings.initialise (settings : Settings) (fuel : Nat) (initial : Node) (kind : Kind) (span : Option Span) :
    Eval Unit Value := do
  Eval.ofExcept ((← (Eval.visitor settings.strictly fuel).actual initial).cast kind span)

/-- It visits the initialiser, to a plain value. -/
theorem Settings.initialise_eq_ok {v : Value} {m : Machine Unit}
    (plain : ∀ c m₁, Eval.visit settings.strictly fuel initial .block ⟨s, ()⟩ = .ok c m₁ → ∀ u, c = .normal u → u.Plain)
    (ran : settings.initialise fuel initial kind span ⟨s, ()⟩ = .ok v m) :
    ∃ u, Eval.visit settings.strictly fuel initial .block ⟨s, ()⟩ = .ok (.normal u) m ∧ u.cast kind span = .ok v := by
  obtain ⟨u, m₁, computed, fitted⟩ := Eval.bind_eq_ok.mp ran
  obtain ⟨w, m₂, evaluated, forced⟩ := Eval.bind_eq_ok.mp computed
  obtain ⟨c, m₃, visited, normal⟩ := Eval.bind_eq_ok.mp evaluated
  cases c with
  | jump | returned =>
    obtain ⟨_, _, -, failed⟩ := Eval.bind_eq_ok.mp normal
    cases failed
  | normal w' =>
    obtain ⟨rfl, rfl⟩ := Eval.pure_eq_ok.mp normal
    have same : u = w' ∧ m₁ = m₃ := by
      have own := plain _ _ visited w' rfl
      cases fuel with
      | zero => exact absurd visited Eval.throw_ne_ok
      | succ fuel =>
        cases w' with
        | «lazy» t => cases own
        | _ =>
          obtain ⟨rfl, rfl⟩ := Eval.pure_eq_ok.mp forced
          exact ⟨rfl, rfl⟩
    obtain ⟨rfl, rfl⟩ := same
    cases result : u.cast kind span with
    | error e =>
      rw [result] at fitted
      exact absurd fitted Eval.fail_ne_ok
    | ok v' =>
      rw [result] at fitted
      obtain ⟨rfl, rfl⟩ := Eval.pure_eq_ok.mp fitted
      exact ⟨u, visited, result⟩

/-- What comes of an initialiser that the strict run evaluates. -/
theorem Visits.initialised (V : Visits settings N (Eval.visitor settings.strictly fuel) inner')
    (fit : Fit initial.facts.delay s) {v : Value} {m : Machine Unit}
    (ran : settings.initialise fuel initial kind span ⟨s, ()⟩ = .ok v m) :
    ∃ u, Eval.visit settings.strictly fuel initial .block ⟨s, ()⟩ = .ok (.normal u) m ∧ u.cast kind span = .ok v ∧
      Evolves initial.facts s m.state ∧ m.state.Sober ∧ m.state.memory.Has u := by
  have alone := (V.visit initial .block (C := none)).alone (.of_delay fit.ok fit.sober)
  have plain (c : Completion) (m₁ : Machine Unit)
      (ended : Eval.visit settings.strictly fuel initial .block ⟨s, ()⟩ = .ok c m₁) (u : Value) (same : c = .normal u) :
      u.Plain := by
    subst same
    obtain ⟨-, -, completed⟩ := alone _ m₁ ended
    cases completed with
    | normal promised => exact promised.has.plain
  obtain ⟨u, ended, fitted⟩ := settings.initialise_eq_ok plain ran
  obtain ⟨evolves, sober, completed⟩ := alone _ m ended
  cases completed with
  | normal promised => exact ⟨u, ended, fitted, evolves, sober, promised.has⟩

/-- A thunk that is made for what the strict run has evaluated is the only one that waits newly. -/
theorem Forward.delay {M : FrameRef → String → Prop} {H : Array (Array Value)} {W : Pairing} {l : State} {b : Backing}
    (aligned : Aligned settings N M H b.initial.facts.delay W b.start b.finish l) (valid : b.Valid settings)
    (nothing : Evolves .idle b.start b.finish) :
    Forward settings M H b.initial.facts.delay W b.start b.finish l { W with backings := W.backings ++ [b] }
      { l with memory := (l.memory.newThunk (b.initial.castTo b.kind) l.top).2 } := by
  have grown := Pairing.Grows.backing W b
  have backings : W.backings.length = l.memory.thunks.size := aligned.matched.backings
  have ready : Scopes W b.names (b.start.steps + 1) b.start l b.start.scope l.scope :=
    aligned.scopes.change (.refl W) (Nat.le_refl _) (fun r seen x named => aligned.mentions x named.2 r seen named.1)
      (fun _ _ _ => rfl) fun _ _ _ => rfl
  have put : Evolves .idle l { l with memory := (l.memory.newThunk (b.initial.castTo b.kind) l.top).2 } := by
    refine .remember _ (fun t inside => ⟨?_, ?_⟩) (.refl _) (Nat.le_refl _)
    · rw [Memory.thunks_newThunk]
      exact Nat.lt_succ_of_lt inside
    · rw [Memory.thunk_newThunk _ _ inside]
  refine ⟨grown, aligned.matched.newThunk valid aligned.heap ready aligned.unclaimed,
    aligned.scopes.evolved valid.sober.lexical aligned.matched.lexical grown nothing put,
    put.weaken (Facts.idle_within _).toAdds, fun t forcing => ?_, fun t b' backed waits => ?_, fun ticket claimed => ?_⟩
  · rcases Memory.thunk_newThunk_of_lt (Memory.lt_of_phase fun v same => nomatch forcing.symm.trans same) with
      ⟨-, old⟩ | ⟨-, new⟩
    · exact old ▸ forcing
    · rw [new] at forcing
      cases forcing
  · rcases Memory.thunk_newThunk_of_lt (Memory.lt_of_phase fun v same => nomatch waits.symm.trans same) with
      ⟨-, old⟩ | ⟨rfl, new⟩
    · exact .inl (old ▸ waits)
    · rcases getElem?_concat.mp backed with before | ⟨-, rfl⟩
      · exact absurd (List.getElem?_eq_some_iff.mp before).1 (Nat.not_lt.mpr (Nat.le_of_eq backings))
      · exact .inr (.inr ⟨by rw [new], List.mem_cons_self⟩)
  · obtain ⟨c, claims⟩ := claimed
    rcases claims.of_newThunk backings with old | ⟨-, made⟩
    · exact .inl ⟨c, old⟩
    · exact .inr made

/-- The strict run evaluates an initialiser and fits it to its kind; the lazy run puts that off. -/
theorem Visits.delay (V : Visits settings N (Eval.visitor settings.strictly fuel) inner') :
    Sim settings N initial.facts.delay s C (settings.initialise fuel initial kind span)
      (fun _ _ => Eval.delay (initial.castTo kind))
      fun s' C' v w => s'.memory.Has v ∧ v.Bindable ∧ ∀ W l, C' = some (W, l) → W.Bound (s'.steps + 1) v w ∧ l.Own l.top w := by
  refine ⟨fun fit v m ran => ?_, fun W l goes fit v m ran within M H aligned => ?_⟩
  · obtain ⟨u, -, fitted, evolves, sober, has⟩ := V.initialised fit ran
    have nothing := evolves.weaken (Facts.adds_idle_of_delay fit.ok)
    exact ⟨nothing.weaken (Facts.idle_within _).toAdds, sober, has.cast fitted, Value.bindable_cast fitted, nofun⟩
  · obtain ⟨u, ended, fitted, evolves, sober, has⟩ := V.initialised fit ran
    let b : Backing := ⟨initial, kind, fuel, s, m.state, u, v⟩
    have valid : b.Valid settings := ⟨fit.sober, ended, fun span' => Value.cast_span fitted span', fit.ok⟩
    have backings : l.memory.thunks.size = W.backings.length := aligned.matched.backings.symm
    refine ⟨.lazy ⟨l.memory.thunks.size⟩, { l with memory := (l.memory.newThunk (initial.castTo kind) l.top).2 }, _,
      .always fun _ _ => rfl, .delay (b := b) aligned valid (evolves.weaken (Facts.adds_idle_of_delay fit.ok)),
      has.cast fitted, Value.bindable_cast fitted, fun W' l' same => ?_⟩
    cases same
    refine ⟨.put (b := b) (getElem?_concat.mpr (.inr ⟨backings, rfl⟩)) (Nat.lt_succ_self _), fun t same => ?_⟩
    cases same
    refine ⟨?_, ?_⟩
    · rw [Memory.thunks_newThunk]
      exact Nat.lt_succ_self _
    · rw [show (⟨l.memory.thunks.size⟩ : ThunkRef) = (l.memory.newThunk (initial.castTo kind) l.top).1 from rfl,
        Memory.thunk_newThunk_self]
      rfl

/-! ## Computing -/

/-- The visitors of the lazy run. -/
def Settings.lazies (settings : Settings) (limit fuel : Nat) : Visitor Unit := Eval.visitor (settings.lazily limit) fuel

/-- A plain value has been computed. -/
theorem Settles.plain {w : Value} (plain : w.Plain) (l : State) :
    Settles (fun limit fuel => (settings.lazies limit fuel).force w) l w l := by
  refine ⟨1, fun limit fuel _ long => ?_⟩
  obtain ⟨k, rfl⟩ := Nat.exists_eq_add_of_le long
  rw [Nat.add_comm]
  cases w with
  | «lazy» t => cases plain
  | _ => rfl

/-- A cast is visited by computing its operand. -/
theorem Settles.castTo {l l' : State} {w u : Value}
    (h : Settles (fun limit fuel => (settings.lazies limit fuel).actual initial)
      (l.entering (initial.castTo kind).summary) w l')
    (fitted : w.cast kind initial.loc = .ok u) :
    Settles (fun limit fuel => (settings.lazies limit fuel).expression (initial.castTo kind)) l u
      (l'.leaving (initial.castTo kind).summary) := by
  obtain ⟨enough, settled⟩ := h
  refine ⟨enough + 1, fun limit fuel wide long => ?_⟩
  obtain ⟨k, rfl⟩ : ∃ k, fuel = k + 1 := ⟨fuel - 1, by omega⟩
  have computed := settled limit k (by omega) (by omega)
  refine Eval.bind_eq_ok.mpr ⟨.normal u, ⟨l'.leaving (initial.castTo kind).summary, ()⟩, ?_, rfl⟩
  refine Eval.bind_eq_ok.mpr ⟨(), ⟨l.entering (initial.castTo kind).summary, ()⟩, rfl, ?_⟩
  refine Eval.bind_eq_ok.mpr ⟨.normal u, ⟨l', ()⟩, ?_, rfl⟩
  refine Eval.bind_eq_ok.mpr ⟨w, ⟨l', ()⟩, computed, ?_⟩
  refine Eval.bind_eq_ok.mpr ⟨kind, ⟨l', ()⟩, ?_, Eval.bind_eq_ok.mpr ⟨u, ⟨l', ()⟩, ?_, rfl⟩⟩
  · rw [Kind.kind_tag]
    rfl
  · rw [show (initial.castTo kind).loc = initial.loc from rfl, fitted]
    rfl

/-- A thunk that is done is not computed again. -/
theorem Settles.memo {l : State} {t : ThunkRef} {w : Value} (done : (l.memory.thunk t).phase = .forced w) :
    Settles (fun limit fuel => (settings.lazies limit fuel).force (.lazy t)) l w l := by
  refine ⟨1, fun limit fuel _ long => ?_⟩
  obtain ⟨k, rfl⟩ : ∃ k, fuel = k + 1 := ⟨fuel - 1, by omega⟩
  show Eval.compute t (fun n => do
    (settings.lazies limit (k + 1)).forceWithin k (← (settings.lazies limit (k + 1)).expression n)) ⟨l, ()⟩ = _
  exact Eval.compute_eq_ok.mpr (.inl ⟨done, rfl⟩)

/-- A thunk that waits is computed in its frame. -/
theorem Settles.compute {l l' : State} {t : ThunkRef} {u : Value} (pending : (l.memory.thunk t).phase = .pending)
    (h : Settles (fun limit fuel => (settings.lazies limit fuel).expression (l.memory.thunk t).expression)
      (l.computing t) u l') (plain : u.Plain) (stack : l'.stack = (l.memory.thunk t).home :: l.stack) :
    Settles (fun limit fuel => (settings.lazies limit fuel).force (.lazy t)) l u (l'.dropTop.setPhase t (.forced u)) := by
  obtain ⟨enough, settled⟩ := h
  refine ⟨enough + 2, fun limit fuel wide long => ?_⟩
  obtain ⟨k, rfl⟩ : ∃ k, fuel = k + 2 := ⟨fuel - 2, by omega⟩
  have fine : l'.popFault? (l.memory.thunk t).home.number = none := State.popFault?_eq_none stack
  show Eval.compute t (fun n => do
    (settings.lazies limit (k + 2)).forceWithin (k + 1) (← (settings.lazies limit (k + 2)).expression n)) ⟨l, ()⟩ = _
  refine Eval.compute_eq_ok.mpr (.inr ⟨pending, ⟨l', ()⟩, ?_, fine, rfl⟩)
  refine Eval.bind_eq_ok.mpr ⟨u, ⟨l', ()⟩, settled limit (k + 2) (by omega) (by omega), ?_⟩
  cases u with
  | «lazy» t => cases plain
  | _ => rfl

/-- An expression that is visited to a plain value is evaluated to it. -/
theorem Settings.actual_of_visit {n : Node} {u : Value} {m : Machine Unit} (plain : u.Plain)
    (visited : Eval.visit settings.strictly fuel n .block ⟨s, ()⟩ = .ok (.normal u) m) :
    (Eval.visitor settings.strictly fuel).actual n ⟨s, ()⟩ = .ok u m := by
  refine Eval.bind_eq_ok.mpr ⟨u, m, Eval.bind_eq_ok.mpr ⟨.normal u, m, visited, rfl⟩, ?_⟩
  cases fuel with
  | zero => exact absurd visited Eval.throw_ne_ok
  | succ fuel =>
    cases u with
    | «lazy» t => cases plain
    | _ => rfl

/-- The lazy run computes a thunk that waits, going along with the strict run as it evaluated the initialiser. -/
theorem Aligned.computing {M : FrameRef → String → Prop} {H : Array (Array Value)} {W : Pairing} {l : State}
    {t : ThunkRef} {b : Backing} (aligned : Aligned settings N M H .idle W s s l) (backed : W.backings[t.index]? = some b)
    (pending : (l.memory.thunk t).phase = .pending) (seen : (l.memory.thunk t).home ∈ l.scope) (before : b.finish.steps ≤ N)
    (n : NodeSummary) :
    Aligned settings b.finish.steps b.names H b.initial.facts W b.start b.finish ((l.computing t).entering n) := by
  have backs := aligned.matched.backs t b backed
  obtain ⟨-, declares, -, functions⟩ := Facts.delay_ok.mp backs.valid.orderly
  have started : (((l.computing t).entering n).memory.thunk t).phase = .forcing :=
    congrArg Thunk.phase (State.thunk_computing pending)
  have matched : Matched settings H W (l.computing t) :=
    (aligned.matched.setPhase .forcing backed nofun nofun).reenter seen
  refine ⟨matched.tick rfl rfl rfl, backs.heap, ?_, fun x member r _ other => ⟨other, member⟩, fun x member => ?_,
    fun x member => ?_, fun some => absurd declares some, fun q b' x _ _ _ member => ?_, fun ticket made claimed => ?_,
    fun q b' backed' forcing => ?_⟩
  · have ready := backs.ready pending (aligned.matched.lexical.mem_chain_of_mem_scope seen)
    exact ready.change (.refl W) (Nat.le_refl _) (fun _ _ _ => id) (fun _ _ _ => rfl) fun r _ x => by cases r <;> rfl
  · rw [declares] at member
    cases member
  · rw [functions] at member
    cases member
  · rw [declares] at member
    cases member
  · -- the thunk itself has claimed what the evaluation makes, and no longer does
    obtain ⟨c, claims⟩ := claimed
    obtain rfl := aligned.matched.unique c (.thunk t) ticket
      (claims.release fun q waits => State.waiting_of_computing pending waits) ⟨b, backed, pending, made⟩
    obtain ⟨-, -, waits, -⟩ := claims
    cases started.symm.trans waits
  · by_cases same : q = t
    · subst same
      cases backed.symm.trans backed'
      exact Nat.le_refl _
    · change ((l.computing t).memory.thunk q).phase = .forcing at forcing
      rw [State.thunk_computing_of_ne same] at forcing
      exact Nat.le_trans before (aligned.limit q b' backed' forcing)

/-- When the thunk is done the lazy run is where it was, but for the memory. -/
theorem Forward.computed {M : FrameRef → String → Prop} {H : Array (Array Value)} {W W' : Pairing} {l l' : State} {t : ThunkRef}
    {b : Backing} {u : Value} {n : NodeSummary} (lexical : s.Lexical) (aligned : Aligned settings N M H .idle W s s l)
    (backed : W.backings[t.index]? = some b) (pending : (l.memory.thunk t).phase = .pending)
    (seen : (l.memory.thunk t).home ∈ l.scope) (same : W'.Same b.value u)
    (h : Forward settings b.names H b.initial.facts W b.start b.finish ((l.computing t).entering n) W' l') :
    Forward settings M H .idle W s s l W' ((l'.leaving n).dropTop.setPhase t (.forced u)) := by
  have backs := aligned.matched.backs t b backed
  obtain ⟨-, declares, delayed, -⟩ := Facts.delay_ok.mp backs.valid.orderly
  have inside := Memory.lt_of_phase fun v same => nomatch pending.symm.trans same
  have L := aligned.matched.lexical
  have held := L.mem_chain_of_mem_scope seen
  have inner : Evolves b.initial.facts (l.computing t) (l'.leaving n) := by
    have entered : Evolves .idle (l.computing t) ((l.computing t).entering n) := .tick rfl rfl rfl rfl (Nat.le_succ _)
    have left : Evolves .idle l' (l'.leaving n) := .tick rfl rfl rfl rfl (Nat.le_succ _)
    have whole := (entered.trans h.evolves).trans left
    rwa [Facts.idle_seq, Facts.seq_idle] at whole
  have evolves : Evolves .idle l ((l'.leaving n).dropTop.setPhase t (.forced u)) :=
    (Evolves.reentered held declares inner).weaken (Facts.adds_idle_of_delay backs.valid.orderly)
  have memory : ((l'.leaving n).dropTop.setPhase t (.forced u)).memory = l'.memory.setPhase t (.forced u) := by
    show (l'.leaving n).dropTop.memory.setPhase t _ = _
    rw [State.dropTop_memory]
    rfl
  have inside' : t.index < l'.memory.thunks.size := by
    refine (h.evolves.grows.thunks t ?_).1
    show t.index < (l.memory.setPhase t .forcing).thunks.size
    rwa [Memory.thunks_setPhase]
  -- what still waits or is being computed is another thunk
  have others (q : ThunkRef)
      (unforced : ∀ v, (((l'.leaving n).dropTop.setPhase t (.forced u)).memory.thunk q).phase ≠ .forced v) :
      q ≠ t ∧ ((l'.leaving n).dropTop.setPhase t (.forced u)).memory.thunk q = l'.memory.thunk q ∧
        ((l.computing t).entering n).memory.thunk q = l.memory.thunk q := by
    have q_ne : q ≠ t := by
      rintro rfl
      refine unforced u ?_
      rw [memory, Memory.thunk_setPhase, if_pos ⟨rfl, inside'⟩]
    refine ⟨q_ne, ?_, State.thunk_computing_of_ne q_ne⟩
    rw [memory, Memory.thunk_setPhase, if_neg fun h => q_ne h.1]
  have left : Matched settings H W' (l'.leaving n) := h.matched.tick rfl rfl rfl
  refine ⟨h.grown, left.dropTop.setPhase _ (h.grown.backings _ _ backed) nofun fun w forced => by cases forced; exact same,
    aligned.scopes.evolved lexical L h.grown (.refl .idle s) evolves, evolves, fun q forcing => ?_,
    fun q b' backed' waits => ?_, fun ticket claimed => ?_⟩
  · obtain ⟨-, after, before⟩ := others q fun v same => nomatch forcing.symm.trans same
    rw [after] at forcing
    exact before ▸ h.forcing q forcing
  · obtain ⟨-, after, before⟩ := others q fun v same => nomatch waits.symm.trans same
    rw [after] at waits ⊢
    rcases h.waiting q b' backed' waits with old | gone | ⟨-, put⟩
    · exact .inl (before ▸ old)
    · exact .inr (.inl fun still => gone (List.mem_cons_of_mem _ still))
    · rw [delayed] at put
      cases put
  · obtain ⟨c, claims⟩ := claimed
    have old : Claims W' l' c ticket := claims.release fun q waits => by
      obtain ⟨-, after, -⟩ := others q fun v same => nomatch waits.symm.trans same
      rwa [after] at waits
    rcases h.claims ticket ⟨c, old⟩ with ⟨c', before⟩ | made
    · exact .inl ⟨c', before.release fun q waits => State.waiting_of_computing pending waits⟩
    · exact .inl ⟨.thunk t, b, backed, pending, made⟩

/-- Whatever the strict run has computed, the lazy run computes too, if it gets along with
    all evaluations of the strict run that ended earlier. -/
theorem Sim.force {v w : Value}
    (V : ∀ N' < N, ∀ fuel, Visits settings N' (Eval.visitor settings.strictly fuel) settings.lazies)
    (promised : Promised s.steps s C v w) :
    Sim settings N .idle s C ((Eval.visitor settings.strictly fuel).force v)
      (fun limit fuel => (settings.lazies limit fuel).force w) Related := by
  have strict {a : Value} {m : Machine Unit} (ran : (Eval.visitor settings.strictly fuel).force v ⟨s, ()⟩ = .ok a m) :
      a = v ∧ m = ⟨s, ()⟩ := by
    have plain := promised.has.plain
    cases fuel with
    | zero => exact absurd ran Eval.throw_ne_ok
    | succ fuel =>
      cases v with
      | «lazy» t => cases plain
      | _ =>
        obtain ⟨rfl, rfl⟩ := Eval.pure_eq_ok.mp ran
        exact ⟨rfl, rfl⟩
  refine ⟨fun fit a m ran => ?_, fun W l goes fit a m ran within M H aligned => ?_⟩
  · obtain ⟨rfl, rfl⟩ := strict ran
    exact ⟨.refl .idle s, fit.sober, .alone promised.has⟩
  · obtain ⟨rfl, rfl⟩ := strict ran
    obtain ⟨bound, held⟩ := promised.bound W l goes
    cases bound with
    | plain same =>
      exact ⟨w, l, W, .plain same.plain_right l, .refl aligned.matched aligned.scopes, .along promised.has same⟩
    | @put t b backed before =>
      have backs := aligned.matched.backs t b backed
      have earlier : b.finish.steps < N := Nat.lt_of_lt_of_le before within
      cases phase : (l.memory.thunk t).phase with
      | forced w =>
        have same := backs.forced w phase
        exact ⟨w, l, W, .memo phase, .refl aligned.matched aligned.scopes, .along promised.has same⟩
      | forcing => exact absurd (Nat.lt_of_lt_of_le earlier (aligned.limit t b backed phase)) (Nat.lt_irrefl _)
      | pending =>
        obtain ⟨r, seen, own⟩ := held
        obtain ⟨-, rfl⟩ := own t rfl
        have fit' := Fit.of_delay backs.valid.orderly backs.valid.sober
        have inner := V b.finish.steps earlier b.fuel
        obtain ⟨-, -, completed⟩ := (inner.visit b.initial .block (C := none)).alone fit' _ _ backs.valid.ran
        cases completed with
        | normal result =>
          have computed := settings.actual_of_visit result.has.plain backs.valid.ran
          have inside := aligned.computing backed phase seen (Nat.le_of_lt earlier) (b.initial.castTo b.kind).summary
          obtain ⟨w', l', W', settles, forward, related⟩ :=
            (inner.actual b.initial).along W _ rfl fit' _ _ computed (Nat.le_refl _) b.names H inside
          obtain ⟨u, fitted, same⟩ := (related.same W' l' rfl).cast b.initial.loc (backs.valid.fitted none)
          have visited := settles.castTo fitted
          rw [← backs.expression] at visited
          refine ⟨u, _, W', .compute phase visited same.plain_right forward.evolves.stack, ?_, .along promised.has same⟩
          rw [backs.expression]
          exact forward.computed fit.sober.lexical aligned backed phase seen same

end
end MiniC
