import MiniC.Proofs.Variables
import MiniC.Toml.Reader

/-!
# Which settings count, and what is wrong with them

Each setting is that of its variable, or else the one in the file, or else the usual one
(`Settings.Merges`). What can be wrong are the texts of the variables and, in what is merged
in the end, the two limits (`Offender`); a limit in the file that a variable overrides is
looked at by nobody. Settings are given exactly if nothing is wrong, and otherwise the first
offender is reported (`Loader.settings_by_precedence`).
-/

namespace MiniC

/-! ## One layer over another -/

namespace Variables

/-- What a variable gives if it is set, and else what lies below it. -/
def Layered {α : Type} (reads : String → α → Prop) (text : Option String) (below a : α) : Prop :=
  match text with
  | some raw => reads raw a
  | none => a = below

/-- A variable is set to a text that cannot be read. -/
def Unreadable {α : Type} (reads : String → α → Prop) (text : Option String) : Prop :=
  ∃ raw, text = some raw ∧ ∀ a, ¬ reads raw a

/-- The reader of a variable succeeds on what it reads, and refuses all else in one way. -/
structure Reader {α : Type} (read : String → Except SettingsError α) (reads : String → α → Prop)
    (refusal : String → SettingsError) : Prop where
  ok {raw : String} {a : α} : read raw = .ok a ↔ reads raw a
  error {raw : String} {e : SettingsError} : read raw = .error e → e = refusal raw

/-- A variable that is read, if it is set. -/
def layer {α : Type} (read : String → Except SettingsError α) (text : Option String) (below : α) :
    Except SettingsError α :=
  match text with
  | some raw => read raw
  | none => pure below

namespace Reader
variable {α : Type} {read : String → Except SettingsError α} {reads : String → α → Prop}
  {refusal : String → SettingsError} {v : Option String} {below : α}

theorem layer_ok (h : Reader read reads refusal) {a : α} : layer read v below = .ok a ↔ Layered reads v below a := by
  cases v with
  | none => simp [layer, Layered, pure, Except.pure, eq_comm]
  | some raw => exact h.ok

theorem layer_error (h : Reader read reads refusal) {e : SettingsError} (refused : layer read v below = .error e) :
    Unreadable reads v ∧ e = refusal (v.getD "") := by
  cases v with
  | none => cases refused
  | some raw =>
    refine ⟨⟨raw, rfl, fun a reading => ?_⟩, h.error refused⟩
    have := (h.ok.2 reading).symm.trans refused
    cases this

theorem unique (h : Reader read reads refusal) {a b : α} (first : Layered reads v below a) (second : Layered reads v below b) :
    a = b :=
  Except.ok.inj ((h.layer_ok.2 first).symm.trans (h.layer_ok.2 second))

end Reader

theorem Layered.readable {α : Type} {reads : String → α → Prop} {v : Option String} {below a : α}
    (layered : Layered reads v below a) : ¬ Unreadable reads v := by
  rintro ⟨raw, rfl, nothing⟩
  exact nothing a layered

end Variables
open Variables

/-! ## The readers of the three variables -/

/-- How a text is refused that names no strategy. It is shown in lower case. -/
def Strategy.refusal (raw : String) : SettingsError :=
  let name := String.ofList (Text.lower (Text.trim raw.toList))
  .invalid "evaluator.strategy" s!"expected \"strict\" or \"lazy\", found \"{name}\""

/-- How a text is refused that spells no number. It is shown as it is. -/
def Settings.refusal (name raw : String) : SettingsError :=
  .invalid name s!"expected a non-negative integer, found \"{raw}\""

/-- A text spells a limit. -/
def Settings.SpellsLimit (raw : String) (limit : Option Nat) : Prop := ∃ n, limit = some n ∧ Spells raw n

theorem Strategy.reader : Reader ofText NamedBy refusal where
  ok := ofText_eq_ok_iff
  error {raw e} refused := by
    unfold ofText at refused
    dsimp only at refused
    split at refused <;> cases refused
    rfl

theorem Settings.reader (name : String) : Reader (numberOfText name) Spells (refusal name) where
  ok := numberOfText_eq_ok_iff
  error {raw e} refused := by
    rw [numberOfText_eq name raw rfl] at refused
    split at refused <;> cases refused
    rfl

theorem Settings.limitReader (name : String) : Reader (fun raw => some <$> numberOfText name raw) SpellsLimit (refusal name) where
  ok {raw limit} := by
    simp only [SpellsLimit, ← (reader name).ok]
    cases numberOfText name raw <;> simp [eq_comm]
  error {raw e} refused := by
    cases read : numberOfText name raw with
    | ok n => rw [read] at refused; cases refused
    | error e' =>
      rw [read] at refused
      cases refused
      exact (reader name).error read

/-! ## Settings -/

/-- The settings that a section and the variables give together. -/
structure Settings.Merges (written : Option Section) (env : Variables) (s : Settings) : Prop where
  strategy : Layered Strategy.NamedBy (env "CWALK_STRATEGY") ((written.bind (·.strategy)).getD .strict) s.strategy
  maxCallDepth : Layered Spells (env "CWALK_MAX_CALL_DEPTH") ((written.bind (·.maxCallDepth)).getD 256) s.maxCallDepth
  maxSteps : Layered SpellsLimit (env "CWALK_MAX_STEPS") (written.bind (·.maxSteps)) s.maxSteps
  entryPoint : s.entryPoint =
    match written.bind (·.entryPoint) with
    | none => some "main"
    | some name => if name = "" then none else some name

/-- What can be wrong: the texts of the three variables, and the two limits in the end. -/
inductive Offender where
  | strategy | depthText | stepsText | depth | steps
deriving DecidableEq, Repr

namespace Offender

/-- The order in which offenders are looked for. -/
def place : Offender → Nat
  | strategy => 0 | depthText => 1 | stepsText => 2 | depth => 3 | steps => 4

/-- Something is wrong with what a section and the variables give. -/
def Present (written : Option Section) (env : Variables) : Offender → Prop
  | strategy => Unreadable Strategy.NamedBy (env "CWALK_STRATEGY")
  | depthText => Unreadable Settings.Spells (env "CWALK_MAX_CALL_DEPTH")
  | stepsText => Unreadable Settings.SpellsLimit (env "CWALK_MAX_STEPS")
  | depth => Layered Settings.Spells (env "CWALK_MAX_CALL_DEPTH") ((written.bind (·.maxCallDepth)).getD 256) 0
  | steps => Layered Settings.SpellsLimit (env "CWALK_MAX_STEPS") (written.bind (·.maxSteps)) (some 0)

/-- The offender that is there before all others. -/
def First (written : Option Section) (env : Variables) (o : Offender) : Prop :=
  o.Present written env ∧ ∀ o' : Offender, o'.place < o.place → ¬ o'.Present written env

/-- What is said of an offender. -/
def fault (env : Variables) : Offender → SettingsError
  | strategy => Strategy.refusal ((env "CWALK_STRATEGY").getD "")
  | depthText => Settings.refusal "CWALK_MAX_CALL_DEPTH" ((env "CWALK_MAX_CALL_DEPTH").getD "")
  | stepsText => Settings.refusal "CWALK_MAX_STEPS" ((env "CWALK_MAX_STEPS").getD "")
  | depth => .invalid "evaluator.max_call_depth" "must be at least 1"
  | steps => .invalid "evaluator.max_steps" "must be at least 1"

variable {written : Option Section} {env : Variables}

theorem place_injective : Function.Injective place := by
  intro o o' same
  cases o <;> cases o' <;> first | rfl | cases same

theorem First.unique {o o' : Offender} (first : o.First written env) (first' : o'.First written env) : o = o' := by
  rcases Nat.lt_trichotomy o.place o'.place with before | same | before
  · exact absurd first.1 (first'.2 o before)
  · exact place_injective same
  · exact absurd first'.1 (first.2 o' before)

/-- There is no offender up to the one that is found to be absent. -/
theorem clear_succ {o : Offender} (clear : ∀ o' : Offender, o'.place < o.place → ¬ o'.Present written env)
    (absent : ¬ o.Present written env) : ∀ o' : Offender, o'.place < o.place + 1 → ¬ o'.Present written env := by
  intro o' before
  rcases Nat.lt_or_eq_of_le (Nat.le_of_lt_succ before) with before | same
  · exact clear o' before
  · rwa [place_injective same]

end Offender

namespace Settings
variable {written : Option Section} {env : Variables}

theorem Merges.unique {s s' : Settings} (h : s.Merges written env) (h' : s'.Merges written env) : s = s' := by
  obtain ⟨strategy, depth, steps, entry⟩ := s
  obtain ⟨strategy', depth', steps', entry'⟩ := s'
  cases Strategy.reader.unique h.strategy h'.strategy
  cases (reader "").unique h.maxCallDepth h'.maxCallDepth
  cases (limitReader "").unique h.maxSteps h'.maxSteps
  cases h.entryPoint.trans h'.entryPoint.symm
  rfl

/-- Nothing is wrong with settings that are merged and allow something. -/
theorem Merges.blameless {s : Settings} (h : s.Merges written env) (depth : 1 ≤ s.maxCallDepth) (steps : s.maxSteps ≠ some 0)
    (o : Offender) : ¬ o.Present written env := by
  cases o with
  | strategy => exact h.strategy.readable
  | depthText => exact h.maxCallDepth.readable
  | stepsText => exact h.maxSteps.readable
  | depth => exact fun zero => absurd ((reader "").unique zero h.maxCallDepth) (by omega)
  | steps => exact fun zero => steps ((limitReader "").unique zero h.maxSteps).symm

end Settings

namespace Loader
variable {written : Option Section} {env : Variables}

/-- A section over the usual settings. -/
theorem overlay_eq (written : Option Section) : Settings.overlay {} (written.getD {}) =
    ⟨(written.bind (·.strategy)).getD .strict, (written.bind (·.maxCallDepth)).getD 256, written.bind (·.maxSteps),
      match written.bind (·.entryPoint) with
      | none => some "main"
      | some name => if name = "" then none else some name⟩ := by
  cases written with
  | none => rfl
  | some section? =>
    obtain ⟨strategy, depth, steps, entry⟩ := section?
    cases entry <;> cases steps <;> simp [Settings.overlay]

/-- The variables are read one after the other. -/
theorem override_eq (s : Settings) (env : Variables) : s.override env = (do
    let strategy ← layer Strategy.ofText (env "CWALK_STRATEGY") s.strategy
    let depth ← layer (Settings.numberOfText "CWALK_MAX_CALL_DEPTH") (env "CWALK_MAX_CALL_DEPTH") s.maxCallDepth
    let steps ← layer (fun raw => some <$> Settings.numberOfText "CWALK_MAX_STEPS" raw) (env "CWALK_MAX_STEPS") s.maxSteps
    return ⟨strategy, depth, steps, s.entryPoint⟩) := by
  unfold Settings.override
  cases env "CWALK_STRATEGY" <;> cases env "CWALK_MAX_CALL_DEPTH" <;> cases env "CWALK_MAX_STEPS" <;> simp [layer]

/-- Either settings are given, merged and with limits that allow something, or the first offender is reported. -/
theorem resolve_cases (written : Option Section) (env : Variables) :
    (∃ s, ({} : Loader).resolve written env = .ok s ∧ s.Merges written env ∧ 1 ≤ s.maxCallDepth ∧ s.maxSteps ≠ some 0) ∨
      ∃ o : Offender, o.First written env ∧ ({} : Loader).resolve written env = .error (o.fault env) := by
  have run : ({} : Loader).resolve written env = (do
      let s ← (Settings.overlay {} (written.getD {})).override env
      s.validate
      return s) := rfl
  rw [run, override_eq, overlay_eq]
  have clear : ∀ o : Offender, o.place < Offender.strategy.place → ¬ o.Present written env := fun _ before => by cases before
  cases named : layer Strategy.ofText (env "CWALK_STRATEGY") ((written.bind (·.strategy)).getD .strict) with
  | error e =>
    obtain ⟨present, rfl⟩ := Strategy.reader.layer_error named
    exact .inr ⟨.strategy, ⟨present, clear⟩, rfl⟩
  | ok strategy =>
  have strategyMerges := Strategy.reader.layer_ok.1 named
  have clear := Offender.clear_succ clear strategyMerges.readable
  cases spelled : layer (Settings.numberOfText "CWALK_MAX_CALL_DEPTH") (env "CWALK_MAX_CALL_DEPTH")
      ((written.bind (·.maxCallDepth)).getD 256) with
  | error e =>
    obtain ⟨present, rfl⟩ := (Settings.reader _).layer_error spelled
    exact .inr ⟨.depthText, ⟨present, clear⟩, rfl⟩
  | ok depth =>
  have depthMerges := (Settings.reader _).layer_ok.1 spelled
  have clear := @Offender.clear_succ written env .depthText clear depthMerges.readable
  cases limited : layer (fun raw => some <$> Settings.numberOfText "CWALK_MAX_STEPS" raw) (env "CWALK_MAX_STEPS")
      (written.bind (·.maxSteps)) with
  | error e =>
    obtain ⟨present, rfl⟩ := (Settings.limitReader _).layer_error limited
    exact .inr ⟨.stepsText, ⟨present, clear⟩, rfl⟩
  | ok steps =>
  have stepsMerges := (Settings.limitReader _).layer_ok.1 limited
  have clear := @Offender.clear_succ written env .stepsText clear stepsMerges.readable
  by_cases noDepth : depth = 0
  · subst noDepth
    exact .inr ⟨.depth, ⟨depthMerges, clear⟩, rfl⟩
  have clear := @Offender.clear_succ written env .depth clear fun zero =>
    noDepth ((Settings.reader "").unique depthMerges zero)
  by_cases noSteps : steps = some 0
  · subst noSteps
    refine .inr ⟨.steps, ⟨stepsMerges, clear⟩, ?_⟩
    simp [Settings.validate, noDepth, bind, Except.bind, pure, Except.pure, Offender.fault]
  · refine .inl ⟨⟨strategy, depth, steps, _⟩, ?_, ⟨strategyMerges, depthMerges, stepsMerges, rfl⟩,
      Nat.pos_of_ne_zero noDepth, noSteps⟩
    simp [Settings.validate, noDepth, noSteps, bind, Except.bind, pure, Except.pure]

/-- Settings are given exactly if every variable that is set can be read and both limits, in the end, allow something.
    They are then merged field by field, and what is not merged is not looked at. Otherwise the first offender is
    reported. A loader that leaves the variables aside does all of this as if none were set, wherever it loads from. -/
theorem settings_by_precedence [Toml.Reader] (written : Option Section) (env : Variables) :
    (∀ s, ({} : Loader).resolve written env = .ok s ↔ s.Merges written env ∧ 1 ≤ s.maxCallDepth ∧ s.maxSteps ≠ some 0) ∧
    ((∃ s, ({} : Loader).resolve written env = .ok s) ↔ ∀ o : Offender, ¬ o.Present written env) ∧
    (∀ e, ({} : Loader).resolve written env = .error e ↔ ∃ o : Offender, o.First written env ∧ e = o.fault env) ∧
    Loader.withoutVariables.resolve written env = ({} : Loader).resolve written (fun _ => none) ∧
    ∀ files p, Loader.withoutVariables.loadDirectory files env p = ({} : Loader).loadDirectory files (fun _ => none) p ∧
      Loader.withoutVariables.loadFile files env p = ({} : Loader).loadFile files (fun _ => none) p := by
  rcases resolve_cases written env with ⟨given, read, merges, depth, steps⟩ | ⟨o, first, refused⟩
  · refine ⟨fun s => ?_, ?_, fun e => ?_, rfl, fun files p => ⟨rfl, rfl⟩⟩ <;> rw [read]
    · constructor
      · intro same
        cases same
        exact ⟨merges, depth, steps⟩
      · rintro ⟨merges', -⟩
        rw [merges.unique merges']
    · exact iff_of_true ⟨given, rfl⟩ (merges.blameless depth steps)
    · refine iff_of_false (fun same => by cases same) ?_
      rintro ⟨o, first, -⟩
      exact merges.blameless depth steps o first.1
  · refine ⟨fun s => ?_, ?_, fun e => ?_, rfl, fun files p => ⟨rfl, rfl⟩⟩ <;> rw [refused]
    · refine iff_of_false (fun same => by cases same) ?_
      rintro ⟨merges, depth, steps⟩
      exact merges.blameless depth steps o first.1
    · refine iff_of_false ?_ fun absent => absent o first.1
      rintro ⟨s, same⟩
      cases same
    · constructor
      · intro same
        cases same
        exact ⟨o, first, rfl⟩
      · rintro ⟨o', first', rfl⟩
        rw [first.unique first']

/-- A depth of zero in the file does no harm under a variable that allows more. -/
theorem settings_by_precedence_overridden :
    ({} : Loader).resolve (some { maxCallDepth := some 0, entryPoint := some "" })
      (fun name => if name = "CWALK_MAX_CALL_DEPTH" then some " +12 " else none) = .ok ⟨.strict, 12, none, none⟩ := by
  have read : Settings.numberOfText "CWALK_MAX_CALL_DEPTH" " +12 " = .ok 12 := by decide +kernel
  refine ((settings_by_precedence _ _).1 _).2 ⟨⟨rfl, ?_, rfl, rfl⟩, by decide, by decide⟩
  exact Settings.numberOfText_eq_ok_iff.1 read

end Loader
end MiniC
