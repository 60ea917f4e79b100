import MiniC.Proofs.Noting

/-!
# How constructs heed their parts

What is evaluated for its value only notes visits that complete normally, up to one that ends
it (`Visited.Tidy`). Hence statements hand on what their last part completes with, and loops
and calls take what is theirs. So every visit keeps the law (`Eval.completions_kept`).
-/

namespace MiniC.Eval
open Visited
variable {σ α β : Type}
variable {x : Eval (σ × List Visited) α} {f : α → Eval (σ × List Visited) β}

/-! ## Operands -/

/-- A visitor that notes each of its visits, which leave the calls as they were. -/
structure Notes (inner : Visitor (σ × List Visited)) : Prop where
  visit (n : Node) (tag : FrameTag) (m : Machine (σ × List Visited)) :
    AddsAt m (fun made r => ∃ V : Visited, made = [V] ∧ V.node = n ∧ V.tag = tag ∧ V.start = m.state ∧ V.ended = r)
      (inner.visit n tag)
  balanced (n : Node) (tag : FrameTag) : Balanced (inner.visit n tag)

theorem Opens.then {n : Node} (first : Adds (Opens n) x) (second : ∀ a, Adds Tidy (f a)) : Adds (Opens n) (x >>= f) := by
  refine first.bind (fun _ _ => id) fun made a opens => (second a).mono fun more r tidy => ?_
  obtain ⟨normal, V, rest, rfl, node⟩ := opens
  exact ⟨Tidy.append normal tidy, V, rest ++ more, rfl, node⟩

namespace Notes
variable {inner : Visitor (σ × List Visited)} (N : Notes inner)
include N

/-- A node where a value is needed completes with one, or else that is the end. -/
theorem opens (n : Node) : Adds (Opens n) (inner.expression n) := by
  intro m
  obtain ⟨made, noted, V, rfl, node, -, -, ended⟩ := N.visit n .block m
  refine ⟨[V], ?_⟩
  unfold Visitor.expression Visitor.node
  rw [runOn_bind]
  generalize runOn (inner.visit n .block) m = outcome at noted ended ⊢
  obtain ⟨⟨i⟩ | ⟨c⟩, m'⟩ := outcome
  · refine ⟨noted, .inr ⟨[], V, rfl, List.forall_mem_nil _, fun j early => ?_⟩, V, [], rfl, node⟩
    cases early.symm.trans ended
    rfl
  · have stray (i : Interrupt) : Tidy (α := Value) [V] (.error i) :=
      .inr ⟨[], V, rfl, List.forall_mem_nil _, fun j early => by cases early.symm.trans ended⟩
    cases c with
    | normal v => exact ⟨noted, List.forall_mem_singleton.mpr ⟨v, ended⟩, V, [], rfl, node⟩
    | jump j span => exact ⟨noted, stray _, V, [], rfl, node⟩
    | returned v => exact ⟨noted, stray _, V, [], rfl, node⟩

theorem expression (n : Node) : Adds Tidy (inner.expression n) := (N.opens n).mono fun _ _ => And.left

theorem forceWithin : ∀ (fuel : Nat) (v : Value), Adds Tidy (inner.forceWithin fuel v)
  | 0, _ => .stop (additive_tidy.nil _)
  | fuel + 1, v => by
    cases v with
    | lazy t => exact additive_tidy.compute t fun n => additive_tidy.bind (N.expression n) fun w => forceWithin fuel w
    | _ => exact .pure (additive_tidy.nil _)

theorem force (v : Value) : Adds Tidy (inner.force v) := N.forceWithin inner.fuel v

/-- A visitor that notes evaluates expressions and computes values for which only values count. -/
theorem operands : Congruence.Operands (fun x _ => Adds Tidy x) (fun x _ => Adds Tidy x) inner inner :=
  ⟨N.expression, N.force⟩

theorem holds (n : Node) : Adds (Opens n) (inner.holds n) :=
  Opens.then (Opens.then (N.opens n) N.force) fun _ => .pure (additive_tidy.nil _)

/-! ## Statements -/

theorem node (n : Node) : Adds Passes (inner.node n) := by
  intro m
  obtain ⟨made, noted, V, rfl, -, -, -, ended⟩ := N.visit n .block m
  refine ⟨[V], noted, ?_⟩
  unfold Visitor.node
  generalize (runOn (inner.visit n .block) m).1 = r at ended
  cases r with
  | ok c => exact .inr ⟨[], V, rfl, List.forall_mem_nil _, ended⟩
  | error i =>
    refine .inr ⟨[], V, rfl, List.forall_mem_nil _, fun j early => ?_⟩
    cases early.symm.trans ended
    rfl

omit N in
/-- A statement may come after what is evaluated for its value. -/
theorem after {f : α → Eval (σ × List Visited) Completion} (first : Adds Tidy x) (second : ∀ a, Adds Passes (f a)) :
    Adds Passes (x >>= f) :=
  first.bind (fun _ _ => id) fun _ a normal => (second a).mono fun _ _ => Passes.append normal

theorem statements (last : Value) : ∀ body : List Node, Adds Passes (inner.statements last body)
  | [] => .pure (.inl (List.forall_mem_nil _))
  | n :: rest => by
    refine (N.node n).bind (fun _ _ => id) fun made c passes => ?_
    have ends : Adds (σ := σ) (fun more r => Passes (made ++ more) r) (Pure.pure c) := .pure (by rwa [List.append_nil])
    cases c with
    | normal v => exact (statements v rest).mono fun _ _ => Passes.append passes.normal
    | jump j span => exact ends
    | returned v => exact ends

theorem block (body : List Node) (tag : FrameTag) : Adds Passes (inner.block body tag) := by
  refine Adds.inFrame tag ((N.statements .void body).bind (fun _ _ => id) fun made c passes => ?_) fun _ _ i passes => passes.fault i
  have ends : Adds (σ := σ) (fun more r => Passes (made ++ more) r) (Pure.pure c) := .pure (by rwa [List.append_nil])
  cases c with
  | normal v =>
    have computed := after (N.force v) fun w => .pure (a := Completion.normal w) (.inl (List.forall_mem_nil _))
    exact computed.mono fun _ _ => Passes.append passes.normal
  | jump j span => exact ends
  | returned v => exact ends

theorem branch (test consequent : Node) (alternate : Option Node) : Adds Passes (inner.branch test consequent alternate) := by
  refine after ((N.holds test).mono fun _ _ => And.left) fun b => ?_
  cases b with
  | true => exact N.node consequent
  | false =>
    cases alternate with
    | some alternate => exact N.node alternate
    | none => exact .pure (.inl (List.forall_mem_nil _))

end Notes

/-! ## Loops -/

section rounds
variable {form : Form} {due left : Option Node} {may may' : Option Node → Prop} {made more : List Visited}

/-- A part of a round comes after another one if the loop goes on after that. -/
theorem Rounds.then {x : Eval (σ × List Visited) (Option Completion)}
    {f : Option Completion → Eval (σ × List Visited) (Option Completion)} (first : Adds (Rounds form due may) x) (second : ∀ left, may left → Adds (Rounds form left may') (f none))
    (ends : ∀ c, f (some c) = Pure.pure (some c)) : Adds (Rounds form due may') (x >>= f) := by
  refine first.bind (fun _ _ => id) fun made ended round => ?_
  cases ended with
  | none =>
    obtain ⟨left, may, goes⟩ := round
    exact (second left may).mono fun _ _ => Rounds.append goes
  | some c =>
    rw [ends]
    exact .pure (by rwa [List.append_nil])

/-- A loop makes rounds as long as it goes on. -/
theorem adds_rounds {round : Eval (σ × List Visited) (Option Completion)} (may : Option Node → Prop)
    (again : ∀ due, may due → Adds (Rounds form due may) round) :
    ∀ (fuel : Nat) (due : Option Node), may due → Adds (Loops form due) (Eval.rounds round fuel)
  | 0, due, _ => .stop ⟨[], due, [], rfl, .nil due, fun _ _ _ head => by (cases head), .inl rfl⟩
  | fuel + 1, due, begins => by
    refine (again due begins).bind (fun _ _ => id) fun made ended round => ?_
    cases ended with
    | none =>
      obtain ⟨left, begins, goes⟩ := round
      exact (adds_rounds _ again fuel left begins).mono fun _ _ => Loops.append goes
    | some c => exact .pure (by rwa [List.append_nil])

end rounds

namespace Notes
variable {inner : Visitor (σ × List Visited)} (N : Notes inner)
include N

section loops
variable {form : Form} {due : Option Node} {may : Option Node → Prop}

theorem loopTest {test : Node} (first : ∀ k ∈ due, test = k) : Adds (Rounds form due (· = none)) (inner.loopTest test) := by
  refine (N.holds test).bind (fun made i opens => opens.loops first) fun made b opens => .pure ?_
  rw [List.append_nil]
  cases b with
  | true => exact ⟨none, rfl, opens.goes first⟩
  | false => exact ⟨made, none, [], (List.append_nil _).symm, opens.goes first, nofun, .inl ⟨rfl, rfl, rfl⟩⟩

theorem loopBody {kind : LoopKind} {body next : Node} (loop : form.loop? = some (kind, body, next))
    (first : ∀ k ∈ due, body = k) : Adds (Rounds form due fun left => ∀ k ∈ left, next = k) (inner.loopBody body kind) := by
  have visited : Adds (fun made r => ∃ V : Visited, made = [V] ∧ V.node = body ∧ V.tag = .loop kind ∧ V.ended = r)
      (inner.visit body (.loop kind)) :=
    fun m => (N.visit body (.loop kind) m).mono fun made r ⟨V, single, node, tag, _, ended⟩ => ⟨V, single, node, tag, ended⟩
  refine visited.bind (fun made i ⟨V, single, node, tag, ended⟩ => ?_) fun made c ⟨V, single, node, tag, ended⟩ => .pure ?_
  · subst single node
    exact ⟨[], due, [V], rfl, .nil due, fun k member W head => by (cases head; exact first k member),
      .inr ⟨V, rfl, fun j early => by (cases early.symm.trans ended; rfl)⟩⟩
  · subst single node
    have is : V.IsBody form next := ⟨kind, loop, tag⟩
    have last : ∀ k ∈ due, ∀ W ∈ [V].head?, W.node = k := fun k member W head => by (cases head; exact first k member)
    cases c with
    | normal v => exact ⟨none, nofun, .normal first ⟨v, ended⟩ (.nil none)⟩
    | returned v => exact ⟨[], due, [V], rfl, .nil due, last, .inr ⟨V, next, rfl, is, .inl ⟨v, ended, rfl⟩⟩⟩
    | jump jump span =>
      cases jump with
      | breakLoop => exact ⟨[], due, [V], rfl, .nil due, last, .inr ⟨V, next, rfl, is, .inr ⟨span, ended, rfl⟩⟩⟩
      | continueLoop => exact ⟨some next, fun k same => Option.some.inj same, .continues first is ended (.nil _)⟩

theorem whileLoop (test body : Node) : Adds (Loops (.whileLoop test body) none) (inner.whileLoop test body) := by
  refine adds_rounds (fun due => ∀ k ∈ due, test = k) (fun due first => ?_) _ none nofun
  exact Rounds.then (N.loopTest first) (fun left nothing => N.loopBody rfl (nothing ▸ nofun)) fun c => rfl

theorem doLoop (body test : Node) : Adds (Loops (.doLoop body test) none) (inner.doLoop body test) := by
  refine adds_rounds (· = none) (fun due nothing => ?_) _ none rfl
  exact Rounds.then (N.loopBody rfl (nothing ▸ nofun)) (fun left next => N.loopTest next) fun c => rfl

/-- What a `for` loop evaluates when a round of its body is over. -/
theorem updated {may : Option Node → Prop} (update : Option Node) (first : ∀ u ∈ update, ∀ k ∈ due, u = k)
    (begins : may none) (stays : update = none → may due) :
    Adds (Rounds form due may) (do
      if let some update := update then
        discard (inner.expression update)
      Pure.pure none) := by
  cases update with
  | none => exact .pure ⟨due, stays rfl, .nil due⟩
  | some u =>
    have opened : Adds (Opens u) (discard (inner.expression u)) :=
      Opens.then (N.opens u) fun _ => .pure (a := ()) (additive_tidy.nil _)
    refine opened.bind (fun made i opens => opens.loops (first u rfl)) fun made _ opens => .pure ?_
    rw [List.append_nil]
    exact ⟨none, begins, opens.goes (first u rfl)⟩

theorem forTest {test : Option Node} {body : Node} (first : ∀ k ∈ due, test.getD body = k) :
    Adds (Rounds form due fun left => ∀ k ∈ left, body = k) (inner.forTest test) := by
  cases test with
  | none => exact .pure ⟨due, first, .nil due⟩
  | some test => exact (N.loopTest first).mono fun _ _ round => round.mono fun left nothing => nothing ▸ nofun

theorem forRounds (start test update : Option Node) (body : Node) :
    Adds (Loops (.forLoop start test update body) none) (Eval.rounds (inner.forRound test update body) inner.fuel) := by
  refine adds_rounds (fun due => ∀ k ∈ due, update = none ∧ test.getD body = k) (fun due first => ?_) _ none nofun
  refine Rounds.then (N.forTest fun k member => (first k member).2) (fun left first => ?_) fun c => rfl
  refine Rounds.then (N.loopBody rfl first) (fun left next => ?_) fun c => rfl
  refine N.updated update (fun u member k due => ?_) nofun fun nothing k due => ⟨nothing, ?_⟩
  · rw [member] at next
    exact next k due
  · rw [nothing] at next
    exact next k due

end loops

theorem forLoop (start test update : Option Node) (body : Node) :
    Adds (Starts (.forLoop start test update body)) (inner.forLoop start test update body) := by
  have repeated := N.forRounds start test update body
  refine Adds.inFrame _ ?_ fun made c i h => ?_
  · cases start with
    | none => exact repeated.mono fun _ _ => .inl
    | some start =>
      have begun : Adds (fun made (r : Except Interrupt Unit) => ∃ S : Visited, made = [S] ∧
          ((∃ c, S.ended = .ok c ∧ r = .ok ()) ∨ ∃ i, S.ended = .error i ∧ r = .error i)) (discard (inner.node start)) := by
        have visited : Adds (fun made r => ∃ S : Visited, made = [S] ∧ S.ended = r) (inner.node start) :=
          fun m => (N.visit start .block m).mono fun made r ⟨S, single, _, _, _, ended⟩ => ⟨S, single, ended⟩
        refine Adds.bind (f := fun _ => Pure.pure ()) visited
          (fun made i ⟨S, single, ended⟩ => ⟨S, single, .inr ⟨i, ended, rfl⟩⟩) fun made c ⟨S, single, ended⟩ => .pure ⟨S, ?_, .inl ⟨c, ended, rfl⟩⟩
        rw [List.append_nil, single]
      refine begun.bind (fun made i ⟨S, single, ended⟩ => .inr ⟨rfl, S, [], single, ?_⟩) fun made _ ⟨S, single, ended⟩ => ?_
      · rcases ended with ⟨c, -, impossible⟩ | ⟨j, ended, same⟩
        · cases impossible
        · cases same
          exact .inr ⟨i, rfl, ended, rfl⟩
      · rcases ended with ⟨c, ended, -⟩ | ⟨j, -, impossible⟩
        · subst single
          exact repeated.mono fun more r loops => .inr ⟨rfl, S, more, rfl, .inl ⟨c, ended, loops⟩⟩
        · cases impossible
  · rcases h with loops | ⟨has, S, more, split, ⟨c, ended, loops⟩ | ⟨j, -, -, impossible⟩⟩
    · exact .inl (loops.fault i)
    · exact .inr ⟨has, S, more, split, .inl ⟨_, ended, loops.fault i⟩⟩
    · cases impossible

/-! ## Calls -/

/-- A value that is no thunk is its own. -/
theorem computed (v : Value) :
    Adds (fun made r => Tidy made r ∧ ∀ w, r = .ok w → v.Plain → w = v ∧ made = []) (inner.force v) := by
  cases lazy : v.isLazy with
  | true => exact (N.force v).mono fun made r tidy => ⟨tidy, fun w _ plain => by cases lazy.symm.trans plain⟩
  | false =>
    unfold Visitor.force
    cases inner.fuel with
    | zero => exact .stop ⟨additive_tidy.nil _, nofun⟩
    | succ fuel =>
      cases v with
      | lazy t => cases lazy
      | _ => exact .pure ⟨additive_tidy.nil _, fun w same _ => ⟨(Except.ok.inj same).symm, rfl⟩⟩

/-- The value of a call is computed and fitted to the kind of the function. -/
theorem fitted (v : Value) (kind : Kind) (span : Option Span) :
    Adds (fun made r => Tidy made r ∧ ∀ u, r = .ok u → ∃ w, w.castResult kind span = .ok u ∧ (v.Plain → w = v ∧ made = []))
      (do let w ← inner.force v; Eval.ofExcept (w.castResult kind span)) := by
  refine (N.computed v).bind (fun made i ⟨cut, _⟩ => ⟨cut, nofun⟩) fun made w ⟨normal, own⟩ => ?_
  cases result : w.castResult kind span with
  | error e => exact .stop ⟨Tidy.append normal (additive_tidy.nil _), nofun⟩
  | ok u =>
    refine .pure ⟨Tidy.append normal (additive_tidy.nil _), ?_⟩
    rintro _ ⟨⟩
    refine ⟨w, result, fun plain => ?_⟩
    obtain ⟨same, nothing⟩ := own w rfl plain
    exact ⟨same, by rw [nothing]; rfl⟩

theorem callBody (ctx : Context σ) (c : Closure) (kind : Kind) (arguments : List Value) (span : Option Span)
    (m : Machine (σ × List Visited)) :
    AddsAt m (Answers c kind span m.state.callDepth) (inner.callBody c kind arguments span) := by
  have nothing : Additive fun _ made _ => made = [] := ⟨fun _ => rfl, by rintro _ _ _ _ _ _ rfl rfl; rfl, id⟩
  have bound := (nothing.lockstep ctx).toCongruence.bindParams span (c.params.zip arguments)
  have balanced := (Balanced.lockstep ctx.besideVisits).toCongruence.bindParams span (c.params.zip arguments)
  refine (bound m).bind (fun made i none => none ▸ .unbound) fun made _ m' done none => ?_
  subst none
  have depth : m'.state.callDepth = m.state.callDepth := congrArg List.length (balanced m _ m' done).2
  refine (N.visit c.body .block m').bind (fun made i ⟨B, single, _, _, _, ended⟩ => single ▸ .interrupted ended) ?_
  rintro made done m'' - ⟨B, rfl, body, -, start, ended⟩
  have inside : B.start.callDepth = m.state.callDepth := by rw [start, depth]
  cases done with
  | normal v => exact (N.fitted v kind span).mono (fun _ _ ⟨tidy, _⟩ => .falls ⟨v, ended⟩ tidy) m''
  | jump j place => exact Adds.stop (.jumps ended) m''
  | returned v => exact (N.fitted v kind span).mono (fun _ _ ⟨tidy, value⟩ => .returns body inside ended tidy value) m''

theorem callClosure (ctx : Context σ) (limit : Nat) (name : String) (c : Closure) (kind : Kind) (arguments : List Value)
    (span : Option Span) (m : Machine (σ × List Visited)) :
    AddsAt m (Answers c kind span (m.state.callDepth + 1)) (inner.callClosure limit name c kind arguments span) := by
  have called : AddsAt m (Answers c kind span (m.state.callDepth + 1))
      (do Eval.checkDepth limit span; Eval.inCall name (inner.callBody c kind arguments span)) := by
    have checked : AddsAt m (fun made _ => made = []) (Eval.checkDepth limit span) := by
      refine .quiet ?_ rfl
      rw [runOn_checkDepth]
      split <;> rfl
    refine checked.bind (fun made i none => none ▸ .unbound) fun made _ m' done none => ?_
    subst none
    have depth : m'.state.callDepth = m.state.callDepth := congrArg List.length (Balanced.checkDepth limit span m _ m' done).2
    have body := N.callBody ctx c kind arguments span ⟨m'.state.calling name, m'.watch⟩
    have inside : (m'.state.calling name).callDepth = m.state.callDepth + 1 := by rw [← depth]; rfl
    dsimp only at body
    rw [inside] at body
    exact AddsAt.inCall name body fun _ _ i h => h.fault i
  unfold Visitor.callClosure
  split
  · exact Adds.stop .unbound m
  · exact called

end Notes

/-- A call heeds its arguments, which are evaluated for their values, and the body of the function. -/
theorem Notes.call {inner : Visitor (σ × List Visited)} (N : Notes inner) (ctx : Context σ) {V : Visited} {callee : Node}
    {arguments : List Node} (form : V.node.form = .call callee arguments)
    (limit : Nat) (m : Machine (σ × List Visited)) (functions : ∀ name, V.start.global? name = m.state.global? name)
    (depth : V.start.callDepth = m.state.callDepth) :
    AddsAt m (HeedsCall V) (inner.call limit callee arguments V.node.loc) := by
  have L := (additive_tidy.lockstep ctx).toCongruence
  have balanced := (Balanced.lockstep ctx.besideVisits).toCongruence.actuals
    ((Balanced.lockstep ctx.besideVisits).toCongruence.operands
      ((Balanced.lockstep ctx.besideVisits).visitorsOf (fun n tag _ => N.balanced n tag) rfl)) arguments
  unfold Visitor.call
  split
  · rename_i name named
    unfold AddsAt
    rw [runOn_state_bind]
    cases found : m.state.global? name with
    | none => exact Adds.stop (.of_tidy (additive_tidy.nil _)) m
    | some binding =>
      obtain ⟨kind, value⟩ := binding
      cases value with
      | closure c =>
        refine (L.actuals N.operands arguments m).bind (fun _ _ cut => .of_tidy (additive_tidy.early cut))
          fun made values m' done normal => ?_
        have same : m'.state.callDepth = V.start.callDepth := by
          rw [depth]
          exact congrArg List.length (balanced m values m' done).2
        refine (N.callClosure ctx limit name c kind values V.node.loc m').mono fun more r answers parts => ?_
        rw [same] at answers
        exact .append normal (answers.heedsCall form named ((functions name).trans found) parts)
      | builtin f =>
        have tidy := additive_tidy.bind (L.actuals N.operands arguments) fun values => L.callBuiltin f values V.node.loc
        exact tidy.mono (fun _ _ => .of_tidy) m
      | _ => exact Adds.stop (.of_tidy (additive_tidy.nil _)) m
  · exact Adds.stop (.of_tidy (additive_tidy.nil _)) m

/-! ## Visits -/

/-- Every construct keeps the law. -/
theorem Notes.byForm {inner : Visitor (σ × List Visited)} (N : Notes inner) (ctx : Context σ) {V : Visited} (tag : FrameTag)
    (m : Machine (σ × List Visited)) (functions : ∀ name, V.start.global? name = m.state.global? name)
    (depth : V.start.callDepth = m.state.callDepth) :
    AddsAt m (fun made r => Visited.Keeps { V with parts := made, ended := r }) (Eval.byForm ctx.settings inner V.node tag) := by
  have kept {W : Visited} (heeds : W.HeedsAll W.parts) : W.Keeps := fun before P after split => .inl (heeds before P after split)
  by_cases operation : V.node.form.isOperation = true
  · have L := (additive_tidy.lockstep ctx).toCongruence
    exact (L.byOperation N.operands V.node tag operation).mono (fun _ _ tidy => kept (Passes.heedsAll tidy.passes)) m
  · unfold Eval.byForm
    cases form : V.node.form with
    | block body => exact (N.block body tag).mono (fun _ _ passes => kept (Passes.heedsAll passes)) m
    | branch test consequent alternate =>
      exact (N.branch test consequent alternate).mono (fun _ _ passes => kept (Passes.heedsAll passes)) m
    | whileLoop test body =>
      exact (N.whileLoop test body).mono (fun _ _ loops => kept (Loops.heedsAll (form ▸ loops))) m
    | doLoop body test =>
      exact (N.doLoop body test).mono (fun _ _ loops => kept (Loops.heedsAll (form ▸ loops))) m
    | forLoop start test update body =>
      refine (N.forLoop start test update body).mono (fun _ _ starts => Starts.keeps ?_) m
      rwa [form]
    | call callee arguments =>
      refine (N.call ctx form _ m functions depth).bind (fun made i heeds => kept (heeds made))
        fun made v m' _ heeds => Adds.pure ?_ m'
      rw [List.append_nil]
      exact kept (heeds made)
    | _ => exact absurd (by rw [form]; rfl) operation

theorem Balanced.noting {x : Eval (σ × List Visited) Completion} (n : Node) (tag : FrameTag) (h : Balanced x) :
    Balanced (noting n tag x) := by
  intro m c m' done
  have ran := runOn_of_eq_ok done
  rw [runOn_noting] at ran
  dsimp only at ran
  cases ended : runOn x ⟨m.state, (m.watch.1, [])⟩ with
  | mk r after =>
    rw [ended] at ran
    cases ran
    exact h ⟨m.state, (m.watch.1, [])⟩ c after (runOn_eq_ok.mp ended)

/-- What is noted as a visit is one more visit in the notes. -/
theorem adds_noting (n : Node) (tag : FrameTag) (x : Eval (σ × List Visited) Completion) (m : Machine (σ × List Visited)) :
    AddsAt m (fun made r => r = (runOn x ⟨m.state, (m.watch.1, [])⟩).1 ∧
      made = [⟨n, tag, m.state, (runOn x ⟨m.state, (m.watch.1, [])⟩).2.watch.2, r⟩]) (noting n tag x) := by
  unfold AddsAt
  rw [runOn_noting]
  exact ⟨_, rfl, rfl, rfl⟩

theorem balanced_notedVisit (ctx : Context σ) : ∀ (fuel : Nat) (n : Node) (tag : FrameTag), Balanced (notedVisit ctx fuel n tag)
  | 0, n, tag => .noting n tag (.stop _)
  | fuel + 1, n, tag => by
    have L := Balanced.lockstep ctx.besideVisits
    have V : Congruence.Visitors (fun x _ => Balanced x) (fun x _ => Balanced x) (notedVisitor ctx fuel) (notedVisitor ctx fuel) :=
      L.visitorsOf (fun n tag _ => balanced_notedVisit ctx fuel n tag) rfl
    have made : Balanced (Eval.byForm ctx.settings ⟨notedVisit ctx fuel, fuel⟩ n tag) := L.byForm V n trivial
    exact .noting n tag (.bind (.enter _ n.summary) fun _ => .bind made fun c => .bind (.exit _ n.summary) fun _ => .pure c)

/-- The visitors that note their visits do so. -/
theorem notes (ctx : Context σ) (fuel : Nat) : Notes (notedVisitor ctx fuel) where
  visit n tag m := by
    have noted : ∃ x, notedVisit ctx fuel n tag = noting n tag x := by cases fuel <;> exact ⟨_, rfl⟩
    obtain ⟨x, same⟩ := noted
    show AddsAt m _ (notedVisit ctx fuel n tag)
    rw [same]
    exact (adds_noting n tag x m).mono fun made r ⟨_, single⟩ => ⟨_, single, rfl, rfl, rfl, rfl⟩
  balanced := balanced_notedVisit ctx fuel

theorem enter_eq_ok {ctx : Context σ} {n : NodeSummary} {m m' : Machine σ} {u : Unit} (done : enter ctx n m = .ok u m') :
    m'.state = m.state.entering n := by
  have ran := runOn_of_eq_ok done
  rw [runOn_enter] at ran
  split at ran
  · cases ran
  · rw [runOn_suspend] at ran
    split at ran <;> cases ran
    rfl

/-- The evaluation of a node between its events keeps the law. -/
theorem Notes.bracket {inner : Visitor (σ × List Visited)} (N : Notes inner) (ctx : Context σ) {V : Visited} (tag : FrameTag)
    (m : Machine (σ × List Visited)) (start : V.start = m.state) :
    AddsAt m (fun made r => Visited.Keeps { V with parts := made, ended := r }) (do
      enter ctx.besideVisits V.node.summary
      let c ← Eval.byForm ctx.settings inner V.node tag
      exit ctx.besideVisits V.node.summary
      Pure.pure c) := by
  have empty {W : Visited} (parts : W.parts = []) : W.Keeps := fun before P after split => by simp [parts] at split
  have entered : AddsAt m (fun made _ => made = []) (enter ctx.besideVisits V.node.summary) := .quiet (Additive.entered ctx _ m) rfl
  refine entered.bind (fun made i none => empty none) fun made _ m' done none => ?_
  subst none
  have same : m'.state = m.state.entering V.node.summary := enter_eq_ok done
  have made := N.byForm ctx (V := V) tag m' (fun name => by rw [start, same]; rfl) (by rw [start, same]; rfl)
  refine made.bind (fun made i keeps => keeps) fun made c m'' _ keeps => ?_
  have left : AddsAt m'' (fun more _ => more = []) (exit ctx.besideVisits V.node.summary) := by
    refine .quiet ?_ rfl
    rw [runOn_exit]
    exact Additive.suspended ctx _ _
  refine left.bind (fun more i none => ?_) fun more _ m₃ _ none => Adds.pure ?_ m₃
  · subst none
    rw [List.append_nil]
    exact Visited.Keeps.interrupt keeps ⟨i, rfl⟩
  · subst none
    rw [List.append_nil, List.append_nil]
    exact keeps

theorem additive_allKeep : Additive fun _ made _ => AllKeep made where
  nil _ := List.forall_mem_nil _
  append first second := List.forall_mem_append.mpr ⟨first, second⟩
  early all := all

/-- All that something makes keeps the law, if it is noted as a visit that keeps it. -/
theorem AddsAt.keeps {n : Node} {tag : FrameTag} {x : Eval (σ × List Visited) Completion} {m : Machine (σ × List Visited)}
    (own : AddsAt ⟨m.state, (m.watch.1, [])⟩ (fun made r => Visited.Keeps ⟨n, tag, m.state, made, r⟩) x)
    (parts : Adds (fun made _ => AllKeep made) x) : AddsAt m (fun made _ => AllKeep made) (noting n tag x) := by
  refine (adds_noting n tag x m).mono fun made r ⟨ended, single⟩ => ?_
  obtain ⟨parts, noted, keeps, all⟩ := own.and (parts _)
  rw [List.nil_append] at noted
  subst ended single
  rw [noted]
  refine List.forall_mem_singleton.mpr fun P within => ?_
  rcases Relation.ReflTransGen.cases_head within with rfl | ⟨Q, member, within⟩
  · exact keeps
  · exact all Q member P within

/-- All visits that a noted visit makes keep the law. -/
theorem notedVisit_keeps (ctx : Context σ) : ∀ (fuel : Nat) (n : Node) (tag : FrameTag),
    Adds (fun made _ => AllKeep made) (notedVisit ctx fuel n tag)
  | 0, n, tag => fun m => .keeps (.quiet rfl fun before P after split => by simp at split) (.stop (List.forall_mem_nil _))
  | fuel + 1, n, tag => fun m => by
    have L := additive_allKeep.lockstep ctx
    have V : Congruence.Visitors (fun x _ => Adds (fun made _ => AllKeep made) x) (fun x _ => Adds (fun made _ => AllKeep made) x)
        (notedVisitor ctx fuel) (notedVisitor ctx fuel) := L.visitorsOf (fun n tag _ => notedVisit_keeps ctx fuel n tag) rfl
    have made := (notes ctx fuel).bracket ctx (V := ⟨n, tag, m.state, [], .error .halted⟩) tag ⟨m.state, (m.watch.1, [])⟩ rfl
    exact .keeps made (additive_allKeep.bracket ctx n.summary (L.byForm V n trivial))

/-! ## Programs -/

/-- The value of a program is that of its last statement, or is returned. -/
theorem Notes.inside {inner : Visitor (σ × List Visited)} (N : Notes inner) (ctx : Context σ) (p : Program) :
    Adds HeedsProgram (Eval.inside ctx.besideVisits inner p) := by
  have L := (additive_tidy.lockstep ctx).toCongruence
  refine (N.statements .void p.body).bind (fun made i cut => .of_cut cut) fun made c passes => ?_
  cases c with
  | normal last =>
    have valued := L.programValue N.operands (p.entryCall? ctx.settings) (.normal last)
    exact valued.mono fun more r tidy => .of_tidy (Tidy.append passes.normal tidy)
  | jump j span => exact .stop (.of_cut (by rw [List.append_nil]; exact passes.fault _))
  | returned v => exact .pure (.of_returned (by rwa [List.append_nil]))

/-- A program heeds its parts, and they keep the law. -/
theorem program_heeds (ctx : Context σ) (fuel : Nat) (p : Program) :
    Adds (fun made r => HeedsProgram made r ∧ AllKeep made) (program ctx.besideVisits (notedVisitor ctx fuel) p) := by
  intro m
  have A := additive_allKeep
  have L := A.lockstep ctx
  have V : Congruence.Visitors (fun x _ => Adds (fun made _ => AllKeep made) x) (fun x _ => Adds (fun made _ => AllKeep made) x)
      (notedVisitor ctx fuel) (notedVisitor ctx fuel) := L.visitorsOf (fun n tag _ => notedVisit_keeps ctx fuel n tag) rfl
  rw [program_eq]
  refine AddsAt.and ?_ (A.bracket ctx p.summary (L.toCongruence.inside V p rfl) m)
  have entered : Adds (fun made _ => made = []) (enter ctx.besideVisits p.summary) := .quiet (Additive.entered ctx _) fun _ => rfl
  have left : Adds (fun made _ => made = []) (exit ctx.besideVisits p.summary) := by
    refine .quiet (fun m => ?_) fun _ => rfl
    rw [runOn_exit]
    exact Additive.suspended ctx _ _
  refine entered.bind (fun made i none => none ▸ .of_cut (.inl (List.forall_mem_nil _))) (fun made _ none => ?_) m
  subst none
  refine ((notes ctx fuel).inside ctx p).bind (fun made i heeds => heeds) fun made v heeds => ?_
  refine left.bind (fun more i none => ?_) fun more _ none => .pure ?_
  · subst none
    rw [List.append_nil]
    exact heeds.interrupt i
  · subst none
    rw [List.append_nil, List.append_nil]
    exact heeds

theorem AddsAt.of_keeping {x : Eval σ α} {y : Eval (σ × List Visited) α} (h : Keeping x y) {s : State} {w : σ}
    {noted : List Visited} {P : List Visited → Except Interrupt α → Prop} (adds : AddsAt ⟨s, (w, noted)⟩ P y) : ∃ made,
      runOn y ⟨s, (w, noted)⟩ = ((runOn x ⟨s, w⟩).1, ⟨(runOn x ⟨s, w⟩).2.state, ((runOn x ⟨s, w⟩).2.watch, noted ++ made)⟩) ∧
      P made (runOn x ⟨s, w⟩).1 := by
  obtain ⟨seen, same⟩ := h.outcome s w noted
  obtain ⟨made, added, holds⟩ := adds
  rw [same] at added holds
  obtain rfl : seen = noted ++ made := added
  exact ⟨made, same, holds⟩

/-- No completion of a visit is lost, from any state and under any settings and observer, but for
    those of initialisers of loops. In the tree of visits that a noted evaluation makes every
    visit heeds how its parts complete, and so does a program. Hence a `return` ends the body of
    a function or the program in which it is reached, unless that is interrupted. -/
theorem completions_kept (ctx : Context σ) (fuel : Nat) (s : State) (w : σ) (noted : List Visited) :
    (∀ n tag,
      let run := runOn (visit ctx fuel n tag) ⟨s, w⟩
      ∃ V : Visited, runOn (notedVisit ctx fuel n tag) ⟨s, (w, noted)⟩ = (run.1, ⟨run.2.state, (run.2.watch, noted ++ [V])⟩) ∧
        V.node = n ∧ V.tag = tag ∧ V.start = s ∧ V.ended = run.1 ∧ LosesNothing V) ∧
    ∀ p,
      let run := runOn (program ctx (visitor ctx fuel) p) ⟨s, w⟩
      ∃ parts : List Visited,
        runOn (program ctx.besideVisits (notedVisitor ctx fuel) p) ⟨s, (w, noted)⟩ =
          (run.1, ⟨run.2.state, (run.2.watch, noted ++ parts)⟩) ∧
        ∀ before V after, parts = before ++ V :: after → Program.Heeds run.1 V after ∧ LosesNothing V ∧
          ∀ R v, V.Reaches R → R.ended = .ok (.returned v) → run.1 = .ok v ∨ ∃ i, run.1 = .error i := by
  refine ⟨fun n tag => ?_, fun p => ?_⟩
  · have adds := ((notes ctx fuel).visit n tag ⟨s, (w, noted)⟩).and (notedVisit_keeps ctx fuel n tag _)
    obtain ⟨made, same, ⟨V, rfl, node, tag', start, ended⟩, keep⟩ := adds.of_keeping (keeping_notedVisit ctx fuel n tag)
    exact ⟨V, same, node, tag', start, ended, keep.losesNothing V List.mem_cons_self⟩
  · obtain ⟨parts, same, heeds, keep⟩ := (program_heeds ctx fuel p _).of_keeping (keeping_program ctx fuel p)
    refine ⟨parts, same, fun before V after split => ?_⟩
    have member : V ∈ parts := by rw [split]; simp
    refine ⟨heeds before V after split, keep.losesNothing V member, fun R v reaches returned => ?_⟩
    have ended := (keep.losesNothing V member V .refl).2 R v reaches returned
    cases heeds before V after split with
    | goesOn normal =>
      obtain ⟨u, normal⟩ := normal
      rcases ended with ended | ⟨i, ended⟩ <;> cases ended.symm.trans normal
    | interrupted last early same => exact .inr ⟨_, same⟩
    | reports last completed early => exact .inr ⟨_, early⟩
    | returns last completed value =>
      rcases ended with ended | ⟨i, ended⟩
      · cases completed.symm.trans ended
        exact .inl value
      · cases ended.symm.trans completed

/-- Whether a loop with an initialiser ends normally although that has returned. -/
def dropsReturn (V : Visited) : Bool :=
  V.node.form.hasStart && V.ended.toOption.any Completion.isNormal &&
    V.parts.head?.any fun P => P.ended.toOption.any Completion.isReturned

theorem exists_of_dropsReturn {V : Visited} (drops : dropsReturn V = true) :
    ∃ P after v, V.parts = P :: after ∧ P.ended = .ok (.returned v) ∧ ¬ V.Heeds P after := by
  unfold dropsReturn at drops
  rw [Bool.and_eq_true, Bool.and_eq_true] at drops
  obtain ⟨⟨start, normal⟩, first⟩ := drops
  cases parts : V.parts with
  | nil => simp [parts] at first
  | cons P after =>
    rw [parts] at first
    change P.ended.toOption.any Completion.isReturned = true at first
    have returned : ∃ v, P.ended = .ok (.returned v) := by
      cases ended : P.ended with
      | error i => rw [ended] at first; cases first
      | ok c =>
        rw [ended] at first
        cases c with
        | returned v => exact ⟨v, rfl⟩
        | _ => cases first
    obtain ⟨v, returned⟩ := returned
    refine ⟨P, after, v, rfl, returned, fun heeds => ?_⟩
    cases heeds with
    | goesOn normal =>
      obtain ⟨u, normal⟩ := normal
      cases returned.symm.trans normal
    | handsOn last same => rw [same, returned] at normal; cases normal
    | reports last completed early =>
      obtain ⟨i, early⟩ := early
      rw [early] at normal
      cases normal
    | breaks loop body jump => cases returned.symm.trans jump
    | continues loop body jump => cases returned.symm.trans jump
    | returns call => rw [call] at start; cases start

/-- The initialiser of a loop returns `true`. The loop ends normally, and the program goes on
    and ends with `false`. -/
theorem return_at_head_dropped :
    let ctx : Context Unit := ⟨{}, .silent⟩
    let start := Tree.returnValue (some (Tree.bool true))
    let p : Program :=
      ⟨[Tree.forLoop (some start) (some (Tree.bool false)) none (Tree.block []), Tree.expr (Tree.bool false)], none⟩
    let run := runOn (program ctx.besideVisits (notedVisitor ctx 20) p) ⟨.seeded, ((), [])⟩
    run.1.toOption.map Value.truthy = some false ∧ ∃ V ∈ run.2.watch.2, ∃ P after v, V.parts = P :: after ∧
      P.ended = .ok (.returned v) ∧ ¬ V.Heeds P after := by
  intro ctx start p run
  have drops : run.2.watch.2.any dropsReturn = true := by decide +kernel
  obtain ⟨V, member, dropped⟩ := List.any_eq_true.mp drops
  exact ⟨by decide +kernel, V, member, exists_of_dropsReturn dropped⟩

end MiniC.Eval
