import MiniC.Proofs.Trail

/-!
# Limits that are not reached

A run whose limits are loosened, or whose fuel is raised, goes as before unless it ended
because of them. Whatever limits an evaluation is a reason to stop it: two evaluations
that differ in their limits do the same until one is stopped (`Eval.Unless`).
-/

namespace MiniC
variable {σ α β : Type}

/-- Whether an error is that of a limit. -/
def EvalError.isLimit : EvalError → Bool
  | callDepth _ _ | stepLimit _ => true
  | _ => false

/-- A limit of steps that allows what another one does. -/
def Looser (limit limit' : Option Nat) : Prop := ∀ n', limit' = some n' → ∃ n, limit = some n ∧ n ≤ n'

namespace Eval

/-- The second evaluation goes as the first one does, unless that one is stopped. -/
def Unless (stops : Interrupt → Prop) (x y : Eval σ α) : Prop := ∀ m, runOn x m = runOn y m ∨
  ∃ i m', runOn x m = (.error i, m') ∧ stops i

namespace Unless
variable {stops : Interrupt → Prop}

theorem same (x : Eval σ α) : Unless stops x x := fun _ => .inl rfl

theorem throw {i : Interrupt} (h : stops i) (y : Eval σ α) : Unless stops (throw i) y := fun m => .inr ⟨i, m, rfl, h⟩

theorem bind {x y : Eval σ α} {f g : α → Eval σ β} (first : Unless stops x y) (second : ∀ a, Unless stops (f a) (g a)) :
    Unless stops (x >>= f) (y >>= g) := by
  intro m
  rw [runOn_bind, runOn_bind]
  rcases first m with equal | ⟨i, m', stopped, h⟩
  · rw [equal]
    rcases runOn y m with ⟨⟨i⟩ | ⟨a⟩, m₁⟩
    · exact .inl rfl
    · exact second a m₁
  · rw [stopped]
    exact .inr ⟨i, m', rfl, h⟩

theorem inFrame {x y : Eval σ α} (tag : FrameTag) (h : Unless stops x y) :
    Unless stops (Eval.inFrame tag x) (Eval.inFrame tag y) :=
  (same _).bind fun _ => h.bind fun _ => same _

theorem inCall {x y : Eval σ α} (name : String) (h : Unless stops x y) :
    Unless stops (Eval.inCall name x) (Eval.inCall name y) :=
  (same _).bind fun _ => h.bind fun _ => same _

theorem undoing {x y : Eval σ α} (undo : State → State) (h : Unless stops x y) :
    Unless stops (Eval.undoing undo x) (Eval.undoing undo y) := by
  intro m
  rw [runOn_undoing, runOn_undoing]
  rcases h m with equal | ⟨i, m', stopped, h⟩
  · rw [equal]
    exact .inl rfl
  · rw [stopped]
    exact .inr ⟨i, _, rfl, h⟩

theorem compute {x y : Node → Eval σ Value} (r : ThunkRef) (h : ∀ n, Unless stops (x n) (y n)) :
    Unless stops (Eval.compute r x) (Eval.compute r y) := by
  refine (same _).bind fun s => ?_
  dsimp only
  split
  · exact same _
  · exact same _
  · exact (same _).bind fun _ => ((h _).undoing _).bind fun _ => same _

/-- A node is entered under the looser limit too. -/
theorem enter {settings settings' : Settings} (o : Observer σ) (steps : Looser settings.maxSteps settings'.maxSteps)
    (limit : ∀ n, stops (.error (.stepLimit n))) (n : NodeSummary) :
    Unless stops (Eval.enter ⟨settings, o⟩ n) (Eval.enter ⟨settings', o⟩ n) := by
  rintro ⟨s, w⟩
  rw [runOn_enter, runOn_enter]
  cases exceeded : settings.maxSteps.filter (· < s.steps + 1) with
  | some n => exact .inr ⟨_, _, rfl, limit n⟩
  | none =>
    have within : settings'.maxSteps.filter (· < s.steps + 1) = none := by
      refine Option.filter_eq_none_iff.mpr fun n' reached => ?_
      obtain ⟨n, below, less⟩ := steps n' reached
      have := Option.filter_eq_none_iff.mp exceeded n below
      simp only [decide_eq_true_eq] at this ⊢
      omega
    dsimp only
    rw [within]
    exact .inl rfl

/-- A call is allowed under the looser limit too. -/
theorem checkDepth {depth depth' : Nat} (deeper : depth ≤ depth') (limit : ∀ n span, stops (.error (.callDepth n span)))
    (span : Option Span) : Unless (σ := σ) stops (Eval.checkDepth depth span) (Eval.checkDepth depth' span) := by
  refine (same _).bind fun s => ?_
  by_cases deep : depth ≤ s.callDepth
  · rw [if_pos deep]
    exact throw (limit depth span) _
  · rw [if_neg deep, if_neg (Nat.not_le.mpr (Nat.lt_of_lt_of_le (Nat.not_le.mp deep) deeper))]
    exact same _

variable (stops) in
/-- Going as before passes through every construct. The fuel may be raised, if running out
    of it is a reason to be stopped. -/
theorem lockstep (settings settings' : Settings) (o : Observer σ) (strategy : settings.strategy = settings'.strategy)
    (enter : ∀ n, Unless stops (Eval.enter ⟨settings, o⟩ n) (Eval.enter ⟨settings', o⟩ n))
    (checkDepth : ∀ span, Unless (σ := σ) stops (Eval.checkDepth settings.maxCallDepth span)
      (Eval.checkDepth settings'.maxCallDepth span)) :
    Lockstep ⟨settings, o⟩ ⟨settings', o⟩ (fun n k => n ≤ k ∧ (n < k → stops .outOfFuel)) (Unless stops) (Unless stops) where
  strategy := strategy
  pure _ := same _
  bind := bind
  fail _ := same _
  stray _ _ := same _
  read h := (same _).bind fun s => h s s (.refl s)
  sameValues _ _ := same _
  newArray _ := same _
  newClosure _ _ _ := same _
  delay _ := same _
  setElement _ _ _ _ := same _
  write _ := same _
  declare _ _ _ _ := same _
  declareGlobal _ _ _ _ := same _
  redefine _ _ _ := same _
  assign _ _ _ := same _
  inFrame {_ _ _ tag} _ := inFrame tag
  inCall name span h := (checkDepth span).bind fun _ => h.inCall name
  compute := compute
  bracket n h := (enter n).bind fun _ => h.bind fun _ => same _
  after := bind
  quit := same _
  forget := id
  fuels_zero {k} h := by
    rcases Nat.eq_zero_or_pos k with rfl | more
    · exact .inl rfl
    · exact .inr fun y => throw (h.2 more) y
  fuels_succ {n k} h := ⟨k - 1, by omega, by omega, fun less => h.2 (by omega)⟩

end Unless
end Eval

namespace Task

/-- The same task under other limits. -/
def withLimits (t : Task) (maxSteps : Option Nat) (maxCallDepth : Nat) : Task :=
  { t with settings := { t.settings with maxSteps, maxCallDepth } }

/-- The same task with another fuel. -/
def withFuel (t : Task) (fuel : Nat) : Task := { t with fuel }

/-- Tasks whose programs do the same under the observer that keeps the states are run alike. -/
theorem run_eq_of_unless {stops : Interrupt → Prop} {settings : Settings} {fuel : Nat} (t : Task) (s : State)
    (alike : Eval.Unless stops
      (Eval.program ⟨t.settings, t.observer.keeping⟩ (Eval.visitor ⟨t.settings, t.observer.keeping⟩ t.fuel) t.program)
      (Eval.program ⟨settings, t.observer.keeping⟩ (Eval.visitor ⟨settings, t.observer.keeping⟩ fuel) t.program))
    (ended : ∀ i, t.result s = .error i → ¬ stops i) :
    ({ t with settings, fuel } : Task).run s = t.run s ∧ ({ t with settings, fuel } : Task).result s = t.result s := by
  obtain ⟨m, ran, left, -⟩ := t.ran s
  obtain ⟨m', ran', left', -⟩ := ({ t with settings, fuel } : Task).ran s
  rcases alike ⟨s.beginEvaluation, (t.watch, [])⟩ with equal | ⟨i, m₁, stopped, h⟩
  · obtain ⟨result, rfl⟩ := Prod.mk.inj (ran.symm.trans (equal.trans ran'))
    exact ⟨by rw [left, left', result], result.symm⟩
  · exact absurd h (ended i (Prod.mk.inj (ran.symm.trans stopped)).1)

/-- A task that does not run out of fuel is run the same with more of it. -/
theorem run_withFuel (t : Task) (s : State) {fuel : Nat} (more : t.fuel ≤ fuel)
    (ended : t.result s ≠ .error .outOfFuel) :
    (t.withFuel fuel).run s = t.run s ∧ (t.withFuel fuel).result s = t.result s := by
  have L := Eval.Unless.lockstep (· = .outOfFuel) t.settings t.settings t.observer.keeping rfl
    (fun _ => .same _) fun _ => .same _
  exact t.run_eq_of_unless s (L.program ⟨more, fun _ => rfl⟩ t.program rfl)
    fun i result stopped => ended (stopped ▸ result)

/-- The limits of steps and of calls inside each other are transparent until they trip. A run,
    from any state and under any observer, that ends with anything but the error of a limit
    is the same under every limit of steps that is looser, or without one, and under every
    greater limit of calls: the same events in the same states, the same result, and the same
    state afterwards, with its output, errors, steps and bindings. -/
theorem limits_transparent (t : Task) (s : State) (maxSteps : Option Nat) (maxCallDepth : Nat)
    (steps : Looser t.settings.maxSteps maxSteps) (depth : t.settings.maxCallDepth ≤ maxCallDepth)
    (ended : ∀ e, t.result s = .error (.error e) → e.isLimit = false) :
    (t.withLimits maxSteps maxCallDepth).log s = t.log s ∧
    (t.withLimits maxSteps maxCallDepth).run s = t.run s ∧
    (t.withLimits maxSteps maxCallDepth).result s = t.result s := by
  let stops (i : Interrupt) : Prop := ∃ e : EvalError, e.isLimit = true ∧ i = .error e
  have L := Eval.Unless.lockstep stops t.settings { t.settings with maxSteps, maxCallDepth } t.observer.keeping rfl
    (Eval.Unless.enter _ steps fun n => ⟨.stepLimit n, rfl, rfl⟩)
    (Eval.Unless.checkDepth depth fun n span => ⟨.callDepth n span, rfl, rfl⟩)
  obtain ⟨run, result⟩ := t.run_eq_of_unless s
    (L.program ⟨Nat.le_refl t.fuel, fun less => absurd less (Nat.lt_irrefl _)⟩ t.program rfl) (by
      rintro i result ⟨e, limit, rfl⟩
      exact absurd (ended e result) (by rw [limit]; nofun))
  exact ⟨congrArg (fun r => r.1.filterMap fun u => u.lastEvent.map (·, u)) run, run, result⟩

/-- A call that just fits its limits goes the same without a limit of steps. -/
theorem call_within_limits :
    let f := Tree.func "int" "f" [] [Tree.returnValue (some (Tree.num 1.0))]
    let t : Task := ⟨{ maxSteps := some 8, maxCallDepth := 1 }, .silent, (), 20, ⟨[f, Tree.expr (Tree.call "f" [])], none⟩⟩
    Looser t.settings.maxSteps none ∧ (∃ v, t.result .seeded = .ok v) ∧
      (t.withLimits none 256).run .seeded = t.run .seeded ∧ ((t.withLimits none 256).log .seeded).length = 14 := by
  intro f t
  have ends : (t.result .seeded).isOk = true := by decide +kernel
  have looser : Looser t.settings.maxSteps none := nofun
  obtain ⟨log, run, -⟩ := t.limits_transparent .seeded none 256 looser (by decide) fun e failed => by
    rw [failed] at ends
    cases ends
  cases ended : t.result .seeded with
  | error i =>
    rw [ended] at ends
    cases ends
  | ok v =>
    refine ⟨looser, ⟨v, rfl⟩, run, ?_⟩
    rw [log]
    decide +kernel

end Task
end MiniC
