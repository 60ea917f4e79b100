import MiniC.Proofs.Limits
import MiniC.Proofs.Parallel

/-!
# Strict and lazy evaluation agree

Each form is evaluated by a strict and by a lazy run alike, so each node is visited alike
if the visits of its parts are. The induction is on the number of steps of the strict run,
since a thunk is computed along with an evaluation that ended earlier, and then on its
fuel (`Visits.all`). So the lazy run of an orderly program returns what the strict run
returns, unless it calls deeper than its limit allows (`Program.strategies_agree`).
Other programs may tell the two strategies apart.
-/

namespace MiniC

/-- Calls what a name is bound to in the global frame, if that is a function. -/
def Visitor.callBound (inner : Visitor Unit) (limit : Nat) (name : String) (callee : Node) (arguments : List Node)
    (span : Option Span) : Option Binding → Eval Unit Value
  | none => Eval.fail (.undefinedFunction name (callee.loc <|> span))
  | some ⟨kind, .closure c⟩ => do inner.callClosure limit name c kind (← inner.actuals arguments) span
  | some ⟨_, .builtin f⟩ => do Eval.callBuiltin f (← inner.actuals arguments) span
  | some _ => Eval.fail (.notCallable name span)

namespace Visits
variable {settings : Settings} {N : Nat} {inner : Visitor Unit} {inner' : Nat → Nat → Visitor Unit}
variable (V : Visits settings N inner inner')
include V

section calls
variable {s : State} {C : Companion}

theorem call (limit : Nat) (callee : Node) (arguments : List Node) (span : Option Span) :
    Sim settings N (factsOfAll arguments) s C (inner.call limit callee arguments span)
      (fun limit fuel => (inner' limit fuel).call limit callee arguments span) Related := by
  unfold Visitor.call
  cases callee.form with
  | identifier name =>
    dsimp only
    refine Sim.global name (inner.callBound limit name callee arguments span)
      (fun limit fuel => (inner' limit fuel).callBound limit name callee arguments span)
      (fun _ _ => Eval.fail_ne_ok) (fun b bindable _ _ => ?_) fun C' kind v w later bound related sober => ?_
    · obtain ⟨kind, v⟩ := b
      cases v with
      | closure | builtin => exact absurd rfl bindable
      | _ => exact Eval.fail_ne_ok
    · have like := related.like
      cases like with
      | closure _ _ _ =>
        obtain ⟨ok, functions⟩ := sober.functions name kind _ bound
        refine (V.actuals arguments).last fun s₂ C₂ vs ws later relateds => ?_
        exact V.callClosure limit name kind span (related.later later) relateds ok functions
      | builtin f => exact (V.actuals arguments).last fun _ _ _ _ _ relateds => .callBuiltin f span relateds
      | _ => exact .fail _
  | _ => exact .fail _

end calls

/-! ## Forms -/

section elements
variable {s : State} {C : Companion}

theorem member (object property : Node) (span : Option Span) :
    Sim settings N (object.facts.seq property.facts) s C
      (do
        let (array, index) ← inner.element object property span
        return .normal (← inner.force ((← Eval.state).memory.element array index)))
      (fun limit fuel => do
        let (array, index) ← (inner' limit fuel).element object property span
        return .normal (← (inner' limit fuel).force ((← Eval.state).memory.element array index)))
      fun s' C' c c' => Completed (s'.steps + 1) s' C' c c' := by
  refine (V.element object property span).last fun s₁ C₁ a b later ⟨related, same⟩ => ?_
  obtain ⟨r, i⟩ := a
  obtain ⟨q, j⟩ := b
  dsimp only at same related ⊢
  subst same
  refine .read fun C₂ l later reads sober => ?_
  have related := related.later later
  have has : s₁.memory.Has (s₁.memory.element r i) := sober.closed.element r i
  refine Sim.concludes (x := inner.force (s₁.memory.element r i))
    (y := fun limit fuel => (inner' limit fuel).force (l.memory.element q i)) ?_
  cases C₂ with
  | none => exact (V.force ((Related.alone has).promised _)).solo
  | some companion =>
    obtain ⟨W, l₀⟩ := companion
    obtain ⟨rfl, heaps⟩ := reads W l₀ rfl
    exact V.force ((Related.along has (heaps.element_of_same related.has (related.same W l₀ rfl) i)).promised _)

theorem array (elements : List Node) :
    Sim settings N (factsOfAll elements) s C
      (do
        let values ← inner.actuals elements
        return .normal (.array (← Eval.allocate (·.newArray values.toArray))))
      (fun limit fuel => do
        let values ← (inner' limit fuel).actuals elements
        return .normal (.array (← Eval.allocate (·.newArray values.toArray))))
      fun s' C' c c' => Completed (s'.steps + 1) s' C' c c' := by
  refine (V.actuals elements).last fun s₁ C₁ vs ws _ relateds => ?_
  refine (Sim.newArray relateds).last fun _ _ _ _ _ related => ?_
  exact .pure (.normal (.alone related.has)) (.normal (related.promised _))

end elements
end Visits

namespace Visits
variable {settings : Settings} {N : Nat} {inner' : Nat → Nat → Visitor Unit} {fuel : Nat}
variable (V : Visits settings N (Eval.visitor settings.strictly fuel) inner')
variable {s : State} {C : Companion}
include V

theorem byForm (n : Node) (tag : FrameTag) : Sim settings N n.facts s C
    (Eval.byForm settings.strictly.settings (Eval.visitor settings.strictly fuel) n tag)
    (fun limit fuel => Eval.byForm (settings.lazily limit).settings (inner' limit fuel) n tag)
    fun s' C' c c' => Completed (s'.steps + 1) s' C' c c' := by
  obtain ⟨form, loc⟩ := n
  cases form with
  | block body => exact (V.block body tag).conclude fun _ _ _ _ h => h.completed _
  | expression e =>
    refine (V.expression e).last fun _ _ _ _ _ promised => ?_
    exact .pure (.normal (.alone promised.has)) (.normal (promised.weaken (Nat.le_succ _)))
  | declaration declarators =>
    refine (V.declarators loc declarators).last fun _ _ _ _ _ _ => ?_
    exact .pure (.normal ((Related.scalar .void).promised _)) (.normal ((Related.scalar .void).promised _))
  | function id params body =>
    refine (Sim.declareFunction id params body loc).last fun _ _ _ _ _ _ => ?_
    exact .pure (.normal ((Related.scalar .void).promised _)) (.normal ((Related.scalar .void).promised _))
  | branch test consequent alternate =>
    exact (V.branch test consequent alternate).conclude fun _ _ _ _ h => h.weaken (Nat.le_succ _)
  | whileLoop test body => exact (V.whileLoop test body).conclude fun _ _ _ _ h => h.completed _
  | doLoop body test => exact (V.doLoop body test).conclude fun _ _ _ _ h => h.completed _
  | forLoop start test update body =>
    exact (V.forLoop start test update body).conclude fun _ _ _ _ h => h.completed _
  | breakLoop => exact .pure (.jump _ _) (.jump _ _)
  | continueLoop => exact .pure (.jump _ _) (.jump _ _)
  | returnValue argument =>
    cases argument with
    | none => exact .pure (.returned (.scalar .void)) (.returned (.scalar .void))
    | some argument =>
      refine (V.actual argument).last fun _ _ _ _ _ related => ?_
      exact .pure (.returned (.alone related.has)) (.returned related)
  | literal value =>
    cases value with
    | bool b => exact .pure (.normal ((Related.scalar (.bool b)).promised _)) (.normal ((Related.scalar (.bool b)).promised _))
    | number x =>
      exact .pure (.normal ((Related.scalar (.number x)).promised _)) (.normal ((Related.scalar (.number x)).promised _))
  | identifier name =>
    exact Sim.lookup name loc
  | binary op left right =>
    refine (V.actual left).bind fun s₁ C₁ v w later related => ?_
    refine (V.actual right).last fun s₂ C₂ v' w' later related' => ?_
    exact (Sim.applyBinary op loc (related.later later) related').concludes
  | logical op left right => exact (V.logical op left right).concludes
  | unary op argument =>
    refine (V.actual argument).last fun s' C' v w _ related => ?_
    exact (Sim.unary op loc related).concludes
  | assign | update => exact .refused
  | call callee arguments => exact (V.call _ callee arguments loc).concludes
  | choice test consequent alternate => exact V.choice test consequent alternate
  | sequence expressions => exact (V.sequence expressions ((Related.scalar .void).promised _)).concludes
  | member object property computed =>
    cases computed with
    | true => exact V.member object property loc
    | false =>
      refine (V.actual object).last fun s₁ C₁ v w later related => ?_
      refine (Sim.constant property.kind).first fun s₂ C₂ kind kind' later ⟨same, _⟩ => ?_
      subst same
      refine Sim.concludes ?_
      exact (Sim.cast (related.later later) kind loc loc).conclude fun _ _ _ _ h => h.1
  | array elements => exact V.array elements
  | lambda params body =>
    exact ((Sim.newClosure none params body).conclude fun _ _ _ _ h => h.1).concludes
  | typeTag name => exact .fail _

end Visits
/-! ## Visits -/

/-- What is promised stays so during steps of no consequence. -/
theorem Promised.tick {k : Nat} {s s' : State} {C C' : Companion} {v w : Value} (h : Promised k s C v w) (ticks : s.Ticks s')
    (put : ∀ W l', C' = some (W, l') → ∃ l, C = some (W, l) ∧ l.Lexical ∧ l.Ticks l') : Promised k s' C' v w := by
  refine ⟨h.has.mono (Nat.le_of_eq (by rw [ticks.memory])), fun W l' goes => ?_⟩
  obtain ⟨l, before, lexical, on⟩ := put W l' goes
  obtain ⟨bound, held⟩ := h.bound W l before
  exact ⟨bound, on.held lexical held⟩

theorem Completed.tick {k : Nat} {s s' : State} {C C' : Companion} {c c' : Completion} (h : Completed k s C c c')
    (ticks : s.Ticks s') (put : ∀ W l', C' = some (W, l') → ∃ l, C = some (W, l) ∧ l.Lexical ∧ l.Ticks l') :
    Completed k s' C' c c' := by
  cases h with
  | normal promised => exact .normal (promised.tick ticks put)
  | jump j span => exact .jump j span
  | returned related =>
    refine .returned ⟨related.has.mono (Nat.le_of_eq (by rw [ticks.memory])), related.like, fun W l' goes => ?_⟩
    obtain ⟨l, before, -, -⟩ := put W l' goes
    exact related.same W l before

namespace Sim
variable {settings : Settings} {N : Nat} {f : Facts} {s : State} {C : Companion}

/-- Both runs announce that they enter a node. -/
theorem enter (n : NodeSummary) :
    Sim settings N .idle s C (Eval.enter settings.strictly n) (fun limit _ => Eval.enter (settings.lazily limit) n)
      fun _ _ _ _ => True :=
  change (·.entering n) (fun _ => ⟨rfl, rfl, rfl, rfl, Nat.le_succ _⟩) rfl fun _ _ _ => rfl

/-- Both runs announce that they leave a node. -/
theorem leave (n : NodeSummary) :
    Sim settings N .idle s C (Eval.exit settings.strictly n) (fun limit _ => Eval.exit (settings.lazily limit) n)
      fun _ _ _ _ => True :=
  change (·.leaving n) (fun _ => ⟨rfl, rfl, rfl, rfl, Nat.le_succ _⟩) rfl fun _ _ _ => rfl

/-- When both runs leave a node, what was promised up to then has been put off before. -/
theorem exit (n : NodeSummary) {c c' : Completion} (completed : Completed (s.steps + 1) s C c c') :
    Sim settings N .idle s C (do Eval.exit settings.strictly n; return c)
      (fun limit _ => do Eval.exit (settings.lazily limit) n; return c') fun s' C' a b => Completed s'.steps s' C' a b := by
  have ticks (s : State) : s.Ticks (s.leaving n) := ⟨rfl, rfl, rfl, rfl, Nat.le_succ _⟩
  refine tick c c' (s.leaving n) (·.leaving n) (fun _ _ ran => by cases ran; exact ⟨rfl, rfl⟩) (ticks s)
    (fun _ => .always fun _ _ => rfl) ticks ?_ fun W l goes lexical => ?_
  · exact completed.solo.tick (ticks s) nofun
  · exact completed.tick (ticks s) fun W' l' same => by cases same; exact ⟨l, goes, lexical, ticks l⟩

/-- The lazy evaluation has one unit of fuel less. -/
theorem shift {α : Type} {x : Eval Unit α} {y : Lazily α} {Q : State → Companion → α → α → Prop}
    (h : Sim settings N f s C x y Q) : Sim settings N f s C x (fun limit fuel => y limit (fuel - 1)) Q := by
  refine ⟨h.alone, fun W l goes fit a m ran within M H aligned => ?_⟩
  obtain ⟨b, l', W', ⟨enough, settled⟩, forward, related⟩ := h.along W l goes fit a m ran within M H aligned
  exact ⟨b, l', W', ⟨enough + 1, fun limit fuel wide long => settled limit (fuel - 1) (by omega) (by omega)⟩, forward, related⟩

end Sim

namespace Visits
variable {settings : Settings}

/-- A node is visited alike if its parts are. -/
theorem step {N fuel : Nat} (V : Visits settings N (Eval.visitor settings.strictly fuel) settings.lazies)
    (n : Node) (tag : FrameTag) {s : State} {C : Companion} :
    Sim settings N n.facts s C (Eval.visit settings.strictly (fuel + 1) n tag)
      (fun limit fuel => Eval.visit (settings.lazily limit) fuel n tag) fun s' C' c c' => Completed s'.steps s' C' c c' := by
  have inner : Sim settings N n.facts s C (Eval.visit settings.strictly (fuel + 1) n tag)
      (fun limit fuel => Eval.visit (settings.lazily limit) (fuel + 1) n tag) fun s' C' c c' => Completed s'.steps s' C' c c' :=
    (Sim.enter n.summary).first fun _ _ _ _ _ _ =>
      (V.byForm n tag).last fun _ _ _ _ _ completed => .exit n.summary completed
  refine inner.shift.eventually 1 fun limit fuel long => ?_
  rw [Nat.sub_add_cancel long]

/-- The lazy run goes along with the strict one, whatever is visited and whatever has been put off. -/
theorem all (N : Nat) : ∀ fuel, Visits settings N (Eval.visitor settings.strictly fuel) settings.lazies := by
  induction N using Nat.strong_induction_on with
  | _ N earlier =>
    intro fuel
    induction fuel with
    | zero => exact ⟨fun _ _ {_ _} => .stop _, Sim.force earlier, fun _ _ => rfl⟩
    | succ fuel ih => exact ⟨fun n tag {_ _} => ih.step n tag, Sim.force earlier, fun _ _ => rfl⟩

end Visits

/-! ## Equal values of two runs -/

/-- Equal values in two memories: the same number or truth value, the same built-in
    function, functions of one name with the same parameters and body, and arrays of equal
    elements. -/
inductive Memory.Equal (m m' : Memory) : Value → Value → Prop
  | void : m.Equal m' .void .void
  | number (x : Float) : m.Equal m' (.number x) (.number x)
  | bool (b : Bool) : m.Equal m' (.bool b) (.bool b)
  | closure {c d : Closure} (name : d.name = c.name) (params : d.params = c.params) (body : d.body = c.body) :
      m.Equal m' (.closure c) (.closure d)
  | builtin (f : Builtin) : m.Equal m' (.builtin f) (.builtin f)
  | array {r q : ArrayRef} (length : m'.length q = m.length r)
      (elements : ∀ i < m.length r, m.Equal m' (m.element r i) (m'.element q i)) : m.Equal m' (.array r) (.array q)

/-- One more than the number of an array, or nothing. -/
def Value.age : Value → Nat
  | .array q => q.index + 1
  | _ => 0

namespace Pairing.Heaps
variable {W : Pairing} {m m' : Memory} (heaps : W.Heaps m m')
include heaps

/-- The elements of an array of a lazy run are older than the array. -/
theorem age_element (q : ArrayRef) (i : Nat) : (m'.element q i).age < (Value.array q).age := by
  unfold Memory.element Memory.elements
  rw [Array.getD_eq_getD_getElem?, Array.getD_eq_getD_getElem?]
  cases made : m'.arrays[q.index]? with
  | none => exact Nat.succ_pos _
  | some ws =>
    cases element : ws[i]? with
    | none => simp only [Option.getD_some, element, Option.getD_none, Value.age, Nat.succ_pos]
    | some w =>
      simp only [Option.getD_some, element]
      cases w with
      | array p => exact Nat.succ_lt_succ (heaps.older q.index ws p made (Array.mem_of_getElem? element))
      | _ => exact Nat.succ_pos _

/-- Values that stand for each other are equal. The induction is on the age of that of the
    lazy run. -/
theorem equal {v w : Value} (has : m.Has v) (same : W.Same v w) : m.Equal m' v w := by
  induction age : w.age using Nat.strong_induction_on generalizing v w with
  | _ n ih =>
    subst age
    cases same with
    | void => exact .void
    | number x => exact .number x
    | bool b => exact .bool b
    | closure _ name params body => exact .closure name params body
    | builtin f => exact .builtin f
    | @array r q paired =>
      have pair : W.Same (.array r) (.array q) := .array paired
      exact .array (heaps.length_of_same has pair) fun i _ =>
        ih _ (heaps.age_element q i) (heaps.closed.element r i) (heaps.element_of_same has pair i) rfl

end Pairing.Heaps

/-! ## Programs -/

/-- The call of the entry point does nothing but call. -/
theorem Program.facts_of_entryCall? {p : Program} {settings : Settings} {call : Node}
    (entry : p.entryCall? settings = some call) : call.facts = .idle := by
  obtain ⟨name, -, found⟩ := Option.bind_eq_some_iff.mp entry
  split at found
  · cases found
    rfl
  · cases found

namespace Visits
variable {settings : Settings} {N : Nat} {inner : Visitor Unit} {inner' : Nat → Nat → Visitor Unit}
variable (V : Visits settings N inner inner') {s : State} {C : Companion}
include V

theorem programValue (entry : Option Node) (calls : ∀ call ∈ entry, call.facts = .idle) {c c' : Completion}
    (completed : Completed s.steps s C c c') :
    Sim settings N .idle s C (Eval.programValue inner entry c)
      (fun limit fuel => Eval.programValue (inner' limit fuel) entry c') Related := by
  cases completed with
  | returned related => exact .pure (.alone related.has) related
  | jump => exact .fail _
  | normal promised =>
    refine (V.force promised).first fun s' C' v w _ related => ?_
    cases entry with
    | none => exact .pure (.alone related.has) related
    | some call =>
      have actual := V.actual (s := s') (C := C') call
      rwa [calls call rfl] at actual

/-- A program is evaluated alike. -/
theorem program (p : Program) :
    Sim settings N (factsOfAll p.body) s C (Eval.program settings.strictly inner p)
      (fun limit fuel => Eval.program (settings.lazily limit) (inner' limit fuel) p) Related := by
  refine (Sim.enter p.summary).first fun s₁ C₁ _ _ later _ => ?_
  refine (V.statements p.body ((Related.scalar .void).promised _)).last fun s₂ C₂ c c' later completed => ?_
  refine (V.programValue (p.entryCall? settings.strictly.settings)
    (fun _ => Program.facts_of_entryCall?) completed).first fun s₃ C₃ v w _ related => ?_
  refine (Sim.leave p.summary).first fun s₄ C₄ _ _ later _ => ?_
  have related := related.later later
  exact .pure (.alone related.has) related

end Visits

/-! ## Starting -/

/-- Nothing is paired yet. -/
def Pairing.empty : Pairing := ⟨[], [], []⟩

namespace State

/-- Built-in functions and a number are bound in the beginning. -/
theorem same_seeded {n : Nat} {x : String} {b : Binding} (found : State.seeded.get? (.numbered n) x = some b) :
    Pairing.empty.Same b.value b.value := by
  let Common (s : State) : Prop := ∀ n x b, s.get? (.numbered n) x = some b → Pairing.empty.Same b.value b.value
  have empty : Common {} := by
    intro n x b found
    cases n with
    | zero => cases found
    | succ n =>
      rw [get?, frame_outside (Nat.succ_le_succ (Nat.zero_le n))] at found
      cases found
  have seed {s : State} (h : Common s) {v : Value} (same : Pairing.empty.Same v v) (name : String) (kind : Kind) :
      Common (s.bind .global name ⟨kind, v⟩) := by
    intro n x b found
    rw [FrameRef.global, get?_bind] at found
    split at found
    · cases found
      exact same
    · exact h n x b found
  have builtin {s : State} (h : Common s) (f : Builtin) : Common (s.bind .global f.name ⟨f.result, .builtin f⟩) :=
    seed h (.builtin f) f.name f.result
  exact seed (builtin (builtin (builtin empty .print) .putchar) .abs) (.number 0.0) _ _ n x b found

theorem memory_seeded : State.seeded.memory = {} := rfl

theorem chain_seeded : State.seeded.chain = [.global] := rfl

theorem sober_seeded : State.seeded.Sober := by
  refine ⟨(proper_seeded fun _ => true).lexical, fun n x b found => ?_, fun i vs found => ?_, fun x kind c found => ?_⟩
  · have same := same_seeded found
    refine ⟨same.plain_left, fun r array => ?_⟩
    rw [array] at same
    cases same with
    | array paired => cases paired
  · cases found
  · cases same_seeded found with
    | closure paired => cases paired

end State

theorem Pairing.backings_empty {i : Nat} {b : Backing} : Pairing.empty.backings[i]? ≠ some b := nofun

/-- Nothing is claimed before anything is paired. -/
theorem Claims.not_empty {l : State} {c : Claimant} {ticket : Ticket} : ¬ Claims .empty l c ticket := by
  intro claims
  cases c with
  | array i =>
    cases ticket with
    | array => exact nomatch (claims : ([] : List Nat)[i]? = some _)
    | closure => exact claims
  | closure i =>
    cases ticket with
    | array => exact claims
    | closure => exact nomatch (claims : ([] : List Nat)[i]? = some _)
  | thunk t =>
    obtain ⟨b, backed, -⟩ := claims
    exact Pairing.backings_empty backed

section start
variable {settings : Settings} {H : Array (Array Value)}

theorem Fit.seeded {f : Facts} (ok : f.ok = true) : Fit f .seeded := by
  refine ⟨ok, State.sober_seeded, fun x kind c _ found => ?_⟩
  cases State.same_seeded found with
  | closure paired => cases paired

theorem Matched.seeded : Matched settings H .empty .seeded where
  lexical := State.sober_seeded.lexical
  stored := by
    rw [State.memory_seeded]
    refine ⟨rfl, rfl, fun q r paired => ?_, fun q ws r found => ?_⟩
    · exact nomatch (paired : ([] : List Nat)[q]? = some r)
    · exact nomatch (found : (#[] : Array (Array Value))[q]? = some ws)
  backings := by rw [State.memory_seeded]; rfl
  backs _ _ backed := absurd backed Pairing.backings_empty
  unique _ _ _ claims := absurd claims Claims.not_empty

/-- Both runs start in one state. -/
theorem Aligned.seeded (N : Nat) (f : Facts) {s' : State} :
    Aligned settings N (fun _ _ => True) s'.memory.arrays f .empty .seeded s' .seeded where
  matched := .seeded
  heap := .refl _
  scopes := .outermost (fun x b found => ⟨b, found, rfl, .plain (State.same_seeded found)⟩) fun _ _ => id
  mentions _ _ _ _ _ := trivial
  declares _ _ := trivial
  functions _ _ := trivial
  newest _ := by
    rw [State.Newest, State.chain_seeded]
    exact List.forall_mem_nil _
  clear _ _ _ backed := absurd backed Pairing.backings_empty
  unclaimed := fun _ _ ⟨_, claims⟩ => Claims.not_empty claims
  limit _ _ backed := absurd backed Pairing.backings_empty

end start

/-! ## Runs -/

namespace Eval
variable {ctx : Context Unit} {fuel : Nat} {p : Program}

end Eval

/-- Neither an assignment nor a call that writes output. -/
def Form.pure : Form → Bool
  | .assign .. | .update .. => false
  | .call ⟨.identifier name, _⟩ _ => name != "print" && name != "putchar"
  | _ => true

namespace Program
variable {p : Program} {settings : Settings} {fuel : Nat} {v : Value} {m : Machine Unit}

end Program
end MiniC
