import MiniC.Proofs.Lexical
import MiniC.Proofs.Visited

/-!
# What becomes of completions

Every construct heeds how its parts complete: it goes on after those that complete normally,
and hands on a jump or a `return` or reports it, unless it is the loop that takes the jump or
the call that takes the value (`Visited.Heeds`). Only the initialiser of a `for` loop may
complete as it likes (`Visited.Keeps`). Hence a `return` ends the body of a function, or the
program, in which it is reached, unless an error intervenes (`Eval.completions_kept`).
-/

namespace MiniC
variable {σ α β : Type}

/-! ## The law -/

/-- A loop: its kind, its body, and what is evaluated when a round of the body is over. -/
def Form.loop? : Form → Option (LoopKind × Node × Node)
  | .whileLoop test body => some (.whileLoop, body, test)
  | .doLoop body test => some (.doLoop, body, test)
  | .forLoop _ test next body => some (.forLoop, body, (next <|> test).getD body)
  | _ => none

/-- Whether a node is a loop with an initialiser. -/
def Form.hasStart : Form → Bool
  | .forLoop (some _) .. => true
  | _ => false

/-- Whether something completes normally. -/
def Completion.isNormal : Completion → Bool
  | .normal _ => true
  | _ => false

/-- Whether something ends with `return`. -/
def Completion.isReturned : Completion → Bool
  | .returned _ => true
  | _ => false

namespace Visited

/-- A visit completes normally. -/
def Normal (V : Visited) : Prop := ∃ v, V.ended = .ok (.normal v)

/-- A visit ends early. -/
def Interrupted (V : Visited) : Prop := ∃ i, V.ended = .error i

/-- What a visit does about the completion of a part `P`, which it visits before others. -/
inductive Heeds (V P : Visited) (after : List Visited) : Prop
  /-- The part has completed normally. -/
  | goesOn (normal : P.Normal)
  /-- The visit ends at once, as the part has ended. -/
  | handsOn (last : after = []) (same : V.ended = P.ended)
  /-- The part has completed, and the visit ends at once with an interrupt. -/
  | reports (last : after = []) {c : Completion} (completed : P.ended = .ok c) (early : V.Interrupted)
  /-- The loop whose body has ended with `break` ends normally. -/
  | breaks {kind : LoopKind} {next : Node} {span : Option Span} (loop : V.node.form.loop? = some (kind, P.node, next))
      (body : P.tag = .loop kind) (jump : P.ended = .ok (.jump .breakLoop span)) (last : after = [])
      (done : V.ended = .ok (.normal .void))
  /-- The loop whose body has ended with `continue` goes on with what comes after the body. -/
  | continues {kind : LoopKind} {next : Node} {span : Option Span} (loop : V.node.form.loop? = some (kind, P.node, next))
      (body : P.tag = .loop kind) (jump : P.ended = .ok (.jump .continueLoop span))
      (rest : ∀ Q ∈ after.head?, Q.node = next) (more : after = [] → V.Interrupted)
  /-- The call of the function whose body has ended with `return` has the value that is returned,
      computed and fitted to the kind of the function. -/
  | returns {callee : Node} {arguments : List Node} {name : String} {kind : Kind} {c : Closure} {v : Value}
      (call : V.node.form = .call callee arguments) (named : callee.form = .identifier name)
      (function : V.start.global? name = some ⟨kind, .closure c⟩) (body : P.node = c.body)
      (inside : P.start.callDepth = V.start.callDepth + 1) (returned : P.ended = .ok (.returned v))
      (value : ∀ done, V.ended = .ok done → ∃ w u, done = .normal u ∧ w.castResult kind V.node.loc = .ok u ∧
        (v.Plain → w = v ∧ after = []))

/-- A visit heeds every part, unless it is the initialiser of a loop that completes. -/
def Keeps (V : Visited) : Prop := ∀ before P after, V.parts = before ++ P :: after →
  V.Heeds P after ∨ V.node.form.hasStart = true ∧ before = [] ∧ ∃ c, P.ended = .ok c

/-- A part is visited in the same call, and not as the initialiser of a loop. -/
def Direct (V P : Visited) : Prop := ∃ before after, V.parts = before ++ P :: after ∧
  P.start.callDepth = V.start.callDepth ∧ ¬ (V.node.form.hasStart = true ∧ before = [])

/-- A visit reaches another one through parts of the same call. -/
def Reaches (V R : Visited) : Prop := Relation.ReflTransGen Direct V R

end Visited

/-- What a program does about the completion of a part `P`, which it visits before others. -/
inductive Program.Heeds (ended : Except Interrupt Value) (P : Visited) (after : List Visited) : Prop
  /-- The part has completed normally. -/
  | goesOn (normal : P.Normal)
  /-- The part has ended early, and so does the program. -/
  | interrupted {i : Interrupt} (last : after = []) (early : P.ended = .error i) (same : ended = .error i)
  /-- The program ends at once with the value that is returned. -/
  | returns {v : Value} (last : after = []) (returned : P.ended = .ok (.returned v)) (value : ended = .ok v)
  /-- The part has completed, and the program ends at once with an interrupt. -/
  | reports {c : Completion} {i : Interrupt} (last : after = []) (completed : P.ended = .ok c) (early : ended = .error i)

namespace Visited

/-! ## Returns -/

/-- Where all parts are heeded a `return` ends whatever it is reached from in the same call, unless
    something is interrupted. -/
theorem returned_of_reaches {V R : Visited} (keeps : ∀ P : Visited, P.Within V → P.Keeps) (reaches : V.Reaches R) {v : Value}
    (returned : R.ended = .ok (.returned v)) : V.ended = .ok (.returned v) ∨ V.Interrupted := by
  induction reaches using Relation.ReflTransGen.head_induction_on with
  | refl => exact .inl returned
  | @head V P direct _ ih =>
    obtain ⟨before, after, split, depth, other⟩ := direct
    have member : P ∈ V.parts := by rw [split]; simp
    have ended := ih fun Q within => keeps Q (Relation.ReflTransGen.head member within)
    rcases keeps V .refl before P after split with heeds | ⟨start, first, -⟩
    · cases heeds with
      | goesOn normal =>
        obtain ⟨w, normal⟩ := normal
        rcases ended with ended | ⟨i, ended⟩ <;> cases ended.symm.trans normal
      | handsOn last same =>
        rw [Interrupted, same]
        exact ended
      | reports last completed early => exact .inr early
      | breaks loop body jump => rcases ended with ended | ⟨i, ended⟩ <;> cases ended.symm.trans jump
      | continues loop body jump => rcases ended with ended | ⟨i, ended⟩ <;> cases ended.symm.trans jump
      | returns call named function body inside => exact absurd (depth.symm.trans inside) (Nat.ne_of_lt (Nat.lt_succ_self _))
    · exact absurd ⟨start, first⟩ other

/-! ## Notes -/

/-- Notes of visits that completed normally, except perhaps for the last one; if that was
    interrupted it was with a certain interrupt. -/
def Cut (i : Interrupt) (made : List Visited) : Prop :=
  (∀ V ∈ made, V.Normal) ∨
    ∃ front V, made = front ++ [V] ∧ (∀ P ∈ front, P.Normal) ∧ ∀ j, V.ended = .error j → j = i

/-- What an evaluation notes for which only values count. -/
def Tidy (made : List Visited) : Except Interrupt α → Prop
  | .ok _ => ∀ V ∈ made, V.Normal
  | .error i => Cut i made

/-- What an evaluation notes for which only values count and that begins with the visit of a
    node. -/
def Opens (n : Node) (made : List Visited) (r : Except Interrupt α) : Prop :=
  Tidy made r ∧ ∃ V rest, made = V :: rest ∧ V.node = n

/-- What an evaluation notes that hands on how its parts complete. -/
def Passes (made : List Visited) : Except Interrupt Completion → Prop
  | .ok c => (∀ V ∈ made, V.Normal) ∨ ∃ front V, made = front ++ [V] ∧ (∀ P ∈ front, P.Normal) ∧ V.ended = .ok c
  | .error i => Cut i made

variable {made more : List Visited} {i : Interrupt}

theorem normal_append (normal : ∀ V ∈ made, V.Normal) (normal' : ∀ V ∈ more, V.Normal) : ∀ V ∈ made ++ more, V.Normal :=
  List.forall_mem_append.mpr ⟨normal, normal'⟩

theorem Cut.append (normal : ∀ V ∈ made, V.Normal) (h : Cut i more) : Cut i (made ++ more) := by
  rcases h with normal' | ⟨front, V, rfl, normal', same⟩
  · exact .inl (normal_append normal normal')
  · exact .inr ⟨made ++ front, V, (List.append_assoc ..).symm, normal_append normal normal', same⟩

theorem Tidy.append {r : Except Interrupt α} (normal : ∀ V ∈ made, V.Normal) (h : Tidy more r) : Tidy (made ++ more) r := by
  cases r with
  | ok a => exact normal_append normal h
  | error i => exact Cut.append normal h

theorem Passes.append {r : Except Interrupt Completion} (normal : ∀ V ∈ made, V.Normal) (h : Passes more r) :
    Passes (made ++ more) r := by
  cases r with
  | error i => exact Cut.append normal h
  | ok c =>
    rcases h with normal' | ⟨front, V, rfl, normal', same⟩
    · exact .inl (normal_append normal normal')
    · exact .inr ⟨made ++ front, V, (List.append_assoc ..).symm, normal_append normal normal', same⟩

theorem Passes.normal {v : Value} (h : Passes made (.ok (.normal v))) : ∀ V ∈ made, V.Normal := by
  rcases h with normal | ⟨front, V, rfl, normal, same⟩
  · exact normal
  · exact normal_append normal (List.forall_mem_singleton.mpr ⟨v, same⟩)

theorem Tidy.passes {r : Except Interrupt Completion} (h : Tidy made r) : Passes made r := by
  cases r with
  | ok c => exact .inl h
  | error i => exact h

theorem Tidy.fault {a : α} (h : Tidy made (.ok a)) (i : Interrupt) : Tidy (α := β) made (.error i) := .inl h

theorem Passes.fault {c : Completion} (h : Passes made (.ok c)) (i : Interrupt) : Passes made (.error i) := by
  rcases h with normal | ⟨front, V, rfl, normal, ended⟩
  · exact .inl normal
  · exact .inr ⟨front, V, rfl, normal, fun j early => by cases early.symm.trans ended⟩

/-- A list with a last element is split before it or there. -/
theorem split_last {front before after : List Visited} {V P : Visited} (h : front ++ [V] = before ++ P :: after) :
    P ∈ front ∨ P = V ∧ before = front ∧ after = [] := by
  rcases List.append_eq_append_iff.mp h with ⟨rest, rfl, single⟩ | ⟨rest, rfl, others⟩
  · cases rest with
    | nil =>
      cases single
      exact .inr ⟨rfl, (List.append_nil _).symm ▸ rfl, rfl⟩
    | cons Q rest =>
      obtain ⟨-, nothing⟩ := List.cons.inj single
      exact absurd nothing.symm (by simp)
  · cases rest with
    | nil =>
      cases others
      exact .inr ⟨rfl, (List.append_nil _).symm, rfl⟩
    | cons Q rest =>
      obtain ⟨rfl, -⟩ := List.cons.inj others
      exact .inl (by simp)

/-- A list of one is split there. -/
theorem split_single {before after : List Visited} {V P : Visited} (h : [V] = before ++ P :: after) : P = V ∧ after = [] := by
  have split : [] ++ [V] = before ++ P :: after := h
  rcases split_last split with none | ⟨same, -, last⟩
  · cases none
  · exact ⟨same, last⟩

/-- A visit that ends early heeds its last part, if that was not interrupted otherwise. -/
theorem Heeds.last {V P : Visited} {i : Interrupt} (ended : V.ended = .error i) (same : ∀ j, P.ended = .error j → j = i) :
    V.Heeds P [] := by
  cases completed : P.ended with
  | ok c => exact .reports rfl completed ⟨i, ended⟩
  | error j =>
    obtain rfl := same j completed
    exact .handsOn rfl (ended.trans completed.symm)

/-- A visit heeds all of these parts. -/
def HeedsAll (V : Visited) (made : List Visited) : Prop := ∀ before P after, made = before ++ P :: after → V.Heeds P after

theorem heedsAll_nil (V : Visited) : V.HeedsAll [] := fun before P after split => by simp at split

theorem HeedsAll.append {V : Visited} (normal : ∀ P ∈ made, P.Normal) (h : V.HeedsAll more) : V.HeedsAll (made ++ more) := by
  intro before P after split
  rcases List.append_eq_append_iff.mp split with ⟨rest, rfl, within⟩ | ⟨rest, rfl, within⟩
  · exact h rest P after within
  · cases rest with
    | nil => exact h [] P after within.symm
    | cons Q rest =>
      obtain ⟨rfl, -⟩ := List.cons.inj within
      exact .goesOn (normal P (by simp))

theorem Passes.heedsAll {V : Visited} (h : Passes made V.ended) : V.HeedsAll made := by
  intro before P after split
  have normal (all : ∀ Q ∈ made, Q.Normal) : P.Normal := all P (by rw [split]; simp)
  cases ended : V.ended with
  | ok c =>
    rw [ended] at h
    rcases h with all | ⟨front, Q, rfl, all, same⟩
    · exact .goesOn (normal all)
    · rcases split_last split with member | ⟨rfl, -, last⟩
      · exact .goesOn (all P member)
      · exact .handsOn last (ended.trans same.symm)
  | error i =>
    rw [ended] at h
    rcases h with all | ⟨front, Q, rfl, all, same⟩
    · exact .goesOn (normal all)
    · rcases split_last split with member | ⟨rfl, -, rfl⟩
      · exact .goesOn (all P member)
      · exact .last ended same

theorem HeedsAll.cons {V P : Visited} (first : V.Heeds P made) (rest : V.HeedsAll made) : V.HeedsAll (P :: made) := by
  intro before Q after split
  cases before with
  | nil =>
    obtain ⟨rfl, rfl⟩ := List.cons.inj split
    exact first
  | cons R before => exact rest before Q after (List.cons.inj split).2

/-- What has been heeded is heeded also if the visit ends early after it has completed. -/
theorem Heeds.interrupt {V P : Visited} {c : Completion} {after : List Visited} (h : Heeds { V with ended := .ok c } P after)
    (early : V.Interrupted) : V.Heeds P after := by
  cases h with
  | goesOn normal => exact .goesOn normal
  | handsOn last same => exact .reports last same.symm early
  | reports last ended early' =>
    obtain ⟨i, early'⟩ := early'
    cases early'
  | breaks loop body jump last => exact .reports last jump early
  | continues loop body jump rest => exact .continues loop body jump rest fun _ => early
  | returns call named function body inside returned =>
    obtain ⟨i, early⟩ := early
    exact .returns call named function body inside returned fun done ended => by cases early.symm.trans ended

theorem Keeps.interrupt {V : Visited} {c : Completion} (h : Keeps { V with ended := .ok c }) (early : V.Interrupted) : V.Keeps :=
  fun before P after split => (h before P after split).imp_left fun heeds => heeds.interrupt early

/-! ## Rounds of loops -/

/-- A visit of the body of a loop, before what comes after that in a round. -/
def IsBody (V : Visited) (form : Form) (next : Node) : Prop :=
  ∃ kind, form.loop? = some (kind, V.node, next) ∧ V.tag = .loop kind

/-- Notes of rounds of a loop that goes on. If there is a node at the beginning it has to be
    visited first, and if there is one at the end it has to be visited next. -/
inductive Goes (form : Form) : Option Node → List Visited → Option Node → Prop
  | nil (due : Option Node) : Goes form due [] due
  | normal {due left : Option Node} {V : Visited} {rest : List Visited} (first : ∀ n ∈ due, V.node = n)
      (normal : V.Normal) (more : Goes form none rest left) : Goes form due (V :: rest) left
  | continues {due left : Option Node} {V : Visited} {rest : List Visited} {next : Node} {span : Option Span}
      (first : ∀ n ∈ due, V.node = n) (body : V.IsBody form next) (jump : V.ended = .ok (.jump .continueLoop span))
      (more : Goes form (some next) rest left) : Goes form due (V :: rest) left

variable {form : Form} {due left : Option Node} {front tail : List Visited}

theorem Goes.append {last : Option Node} (h : Goes form due made left) (h' : Goes form left more last) :
    Goes form due (made ++ more) last := by
  induction h with
  | nil => exact h'
  | normal first normal _ ih => exact .normal first normal (ih h')
  | continues first body jump _ ih => exact .continues first body jump (ih h')

theorem goes_of_normal (normal : ∀ V ∈ made, V.Normal) : Goes form none made none := by
  induction made with
  | nil => exact .nil none
  | cons V rest ih =>
    obtain ⟨first, others⟩ := List.forall_mem_cons.mp normal
    exact .normal nofun first (ih others)

/-- A part of a round has completed normally or with `continue`, unless it comes after those
    after which the loop goes on. -/
theorem Goes.split (h : Goes form due front left) (first : ∀ n ∈ left, ∀ V ∈ tail.head?, V.node = n)
    {before after : List Visited} {P : Visited} (split : front ++ tail = before ++ P :: after) :
    (∃ skipped, tail = skipped ++ P :: after) ∨ P.Normal ∨ ∃ next span, P.IsBody form next ∧
      P.ended = .ok (.jump .continueLoop span) ∧ (∀ Q ∈ after.head?, Q.node = next) ∧
      (after = [] → tail = [] ∧ left = some next) := by
  induction h generalizing before with
  | nil => exact .inl ⟨before, split⟩
  | @normal due left V rest _ normal _ ih =>
    cases before with
    | nil =>
      obtain ⟨rfl, -⟩ := List.cons.inj split
      exact .inr (.inl normal)
    | cons Q before => exact ih first (List.cons.inj split).2
  | @continues due left V rest next span _ body jump more ih =>
    cases before with
    | cons Q before => exact ih first (List.cons.inj split).2
    | nil =>
      obtain ⟨rfl, rfl⟩ := List.cons.inj split
      refine .inr (.inr ⟨next, span, body, jump, fun Q head => ?_, fun nothing => ?_⟩)
      · cases more with
        | nil => exact first next rfl Q head
        | normal due _ _ => cases head; exact due next rfl
        | continues due _ _ _ => cases head; exact due next rfl
      · obtain ⟨rfl, rfl⟩ := List.append_eq_nil_iff.mp nothing
        cases more
        exact ⟨rfl, rfl⟩

/-- Notes of rounds of a loop: of such after which it goes on, and then of a last visit, if
    there is one. -/
def Rolls (form : Form) (due : Option Node) (made : List Visited) (last : Option Node → List Visited → Prop) : Prop :=
  ∃ front left tail, made = front ++ tail ∧ Goes form due front left ∧
    (∀ n ∈ left, ∀ V ∈ tail.head?, V.node = n) ∧ last left tail

/-- Notes of a loop, by how it ends. -/
def Loops (form : Form) (due : Option Node) (made : List Visited) : Except Interrupt Completion → Prop
  | .ok c => Rolls form due made fun left tail => (tail = [] ∧ left = none ∧ c = .normal .void) ∨ ∃ V next, tail = [V] ∧
      V.IsBody form next ∧ ((∃ v, V.ended = .ok (.returned v) ∧ c = .returned v) ∨
        ∃ span, V.ended = .ok (.jump .breakLoop span) ∧ c = .normal .void)
  | .error i => Rolls form due made fun _ tail => tail = [] ∨ ∃ V, tail = [V] ∧ ∀ j, V.ended = .error j → j = i

theorem Loops.append {r : Except Interrupt Completion} (h : Goes form due made left) (h' : Loops form left more r) :
    Loops form due (made ++ more) r := by
  cases r <;>
  · obtain ⟨front, left, tail, rfl, goes, first, last⟩ := h'
    exact ⟨made ++ front, left, tail, (List.append_assoc ..).symm, h.append goes, first, last⟩

theorem Loops.fault {c : Completion} (h : Loops form due made (.ok c)) (i : Interrupt) : Loops form due made (.error i) := by
  obtain ⟨front, left, tail, split, goes, first, last⟩ := h
  refine ⟨front, left, tail, split, goes, first, ?_⟩
  rcases last with ⟨nothing, -⟩ | ⟨V, next, single, -, ⟨v, ended, -⟩ | ⟨span, ended, -⟩⟩
  · exact .inl nothing
  · exact .inr ⟨V, single, fun j early => by cases early.symm.trans ended⟩
  · exact .inr ⟨V, single, fun j early => by cases early.symm.trans ended⟩

theorem Loops.heedsAll {V : Visited} (h : Loops V.node.form due made V.ended) : V.HeedsAll made := by
  intro before P after split
  cases ended : V.ended with
  | ok c =>
    rw [ended] at h
    obtain ⟨front, left, tail, rfl, goes, first, last⟩ := h
    rcases goes.split first split with ⟨skipped, rest⟩ | normal | ⟨next, span, ⟨kind, loop, body⟩, jump, head, more⟩
    · rcases last with ⟨rfl, -, -⟩ | ⟨Q, next, rfl, ⟨kind, loop, body⟩, finished⟩
      · simp at rest
      · obtain ⟨rfl, rfl⟩ := split_single rest
        rcases finished with ⟨v, returned, rfl⟩ | ⟨span, jump, rfl⟩
        · exact .handsOn rfl (ended.trans returned.symm)
        · exact .breaks loop body jump rfl ended
    · exact .goesOn normal
    · refine .continues loop body jump head fun nothing => ?_
      obtain ⟨rfl, rfl⟩ := more nothing
      rcases last with ⟨-, impossible, -⟩ | ⟨Q, next, impossible, -⟩ <;> cases impossible
  | error i =>
    rw [ended] at h
    obtain ⟨front, left, tail, rfl, goes, first, last⟩ := h
    rcases goes.split first split with ⟨skipped, rest⟩ | normal | ⟨next, span, ⟨kind, loop, body⟩, jump, head, more⟩
    · rcases last with rfl | ⟨Q, rfl, same⟩
      · simp at rest
      · obtain ⟨rfl, rfl⟩ := split_single rest
        exact .last ended same
    · exact .goesOn normal
    · exact .continues loop body jump head fun _ => ⟨i, ended⟩

/-- Notes of one round of a loop: the loop goes on, and one more round may begin, or it ends. -/
def Rounds (form : Form) (due : Option Node) (may : Option Node → Prop) (made : List Visited) :
    Except Interrupt (Option Completion) → Prop
  | .ok none => ∃ left, may left ∧ Goes form due made left
  | .ok (some c) => Loops form due made (.ok c)
  | .error i => Loops form due made (.error i)

variable {may may' : Option Node → Prop}

theorem Rounds.append {r : Except Interrupt (Option Completion)} (h : Goes form due made left)
    (h' : Rounds form left may more r) : Rounds form due may (made ++ more) r := by
  cases r with
  | error i => exact Loops.append (r := .error i) h h'
  | ok ended =>
    cases ended with
    | some c => exact Loops.append (r := .ok c) h h'
    | none =>
      obtain ⟨last, may, goes⟩ := h'
      exact ⟨last, may, h.append goes⟩

theorem Rounds.mono {r : Except Interrupt (Option Completion)} (h : Rounds form due may made r)
    (weaker : ∀ left, may left → may' left) : Rounds form due may' made r := by
  cases r with
  | error i => exact h
  | ok ended =>
    cases ended with
    | some c => exact h
    | none =>
      obtain ⟨left, holds, goes⟩ := h
      exact ⟨left, weaker left holds, goes⟩

theorem Opens.goes {n : Node} {a : α} (opens : Opens n made (.ok a)) (first : ∀ k ∈ due, n = k) :
    Goes form due made none := by
  obtain ⟨normal, V, rest, rfl, rfl⟩ := opens
  obtain ⟨head, others⟩ := List.forall_mem_cons.mp normal
  exact .normal first head (goes_of_normal others)

theorem Opens.loops {n : Node} {i : Interrupt} (opens : Opens (α := α) n made (.error i)) (first : ∀ k ∈ due, n = k) :
    Loops form due made (.error i) := by
  obtain ⟨normal | ⟨front, V, rfl, normal, same⟩, U, rest, split, rfl⟩ := opens
  · have opens : Opens U.node made (.ok ()) := ⟨normal, U, rest, split, rfl⟩
    exact ⟨made, none, [], (List.append_nil _).symm, opens.goes first, nofun, .inl rfl⟩
  · cases front with
    | nil =>
      obtain ⟨rfl, -⟩ := List.cons.inj split
      exact ⟨[], due, [V], rfl, .nil due, fun k member W head => by (cases head; exact first k member),
        .inr ⟨V, rfl, same⟩⟩
    | cons W front =>
      obtain ⟨rfl, -⟩ := List.cons.inj split
      have opens : Opens W.node (W :: front) (.ok ()) := ⟨normal, W, front, rfl, rfl⟩
      exact ⟨W :: front, none, [V], rfl, opens.goes first, nofun, .inr ⟨V, rfl, same⟩⟩

/-- Notes of a `for` loop: of its initialiser, if there is one, and then of its rounds. -/
def Starts (form : Form) (made : List Visited) (r : Except Interrupt Completion) : Prop :=
  Loops form none made r ∨ form.hasStart = true ∧ ∃ S more, made = S :: more ∧
    ((∃ c, S.ended = .ok c ∧ Loops form none more r) ∨ ∃ i, more = [] ∧ S.ended = .error i ∧ r = .error i)

theorem Starts.keeps {V : Visited} (h : Starts V.node.form V.parts V.ended) : V.Keeps := by
  intro before P after split
  rcases h with loops | ⟨has, S, more, parts, started⟩
  · exact .inl (Loops.heedsAll loops before P after split)
  · rw [parts] at split
    cases before with
    | cons Q before =>
      obtain ⟨rfl, rfl⟩ := List.cons.inj split
      rcases started with ⟨c, -, loops⟩ | ⟨i, nothing, -⟩
      · exact .inl (Loops.heedsAll loops before P after rfl)
      · simp at nothing
    | nil =>
      obtain ⟨rfl, rfl⟩ := List.cons.inj split
      rcases started with ⟨c, ended, -⟩ | ⟨i, nothing, ended, same⟩
      · exact .inr ⟨has, rfl, c, ended⟩
      · exact .inl (.handsOn nothing (same.trans ended.symm))

/-! ## Notes of calls -/

/-- Notes of a call once it has its frame: of the body of the function, at that depth of calls,
    and of what its value needs. -/
inductive Answers (c : Closure) (kind : Kind) (span : Option Span) (depth : Nat) :
    List Visited → Except Interrupt Value → Prop
  | unbound {i : Interrupt} : Answers c kind span depth [] (.error i)
  | interrupted {B : Visited} {i : Interrupt} (ended : B.ended = .error i) : Answers c kind span depth [B] (.error i)
  | jumps {B : Visited} {j : Jump} {place : Option Span} {i : Interrupt} (ended : B.ended = .ok (.jump j place)) :
      Answers c kind span depth [B] (.error i)
  | falls {B : Visited} {more : List Visited} {r : Except Interrupt Value} (normal : B.Normal) (rest : Tidy more r) :
      Answers c kind span depth (B :: more) r
  | returns {B : Visited} {more : List Visited} {r : Except Interrupt Value} {v : Value} (body : B.node = c.body)
      (inside : B.start.callDepth = depth) (returned : B.ended = .ok (.returned v)) (rest : Tidy more r)
      (value : ∀ u, r = .ok u → ∃ w, w.castResult kind span = .ok u ∧ (v.Plain → w = v ∧ more = [])) :
      Answers c kind span depth (B :: more) r

theorem Answers.fault {c : Closure} {kind : Kind} {span : Option Span} {depth : Nat} {made : List Visited} {v : Value}
    (h : Answers c kind span depth made (.ok v)) (i : Interrupt) : Answers c kind span depth made (.error i) := by
  cases h with
  | falls normal rest => exact .falls normal (rest.fault i)
  | returns body inside returned rest => exact .returns body inside returned (rest.fault i) nofun

/-- The visit of a call heeds its parts if it ends as the call does. -/
def HeedsCall (V : Visited) (made : List Visited) (r : Except Interrupt Value) : Prop :=
  ∀ parts, HeedsAll { V with parts, ended := r.map Completion.normal } made

theorem HeedsCall.of_tidy {V : Visited} {made : List Visited} {r : Except Interrupt Value} (tidy : Tidy made r) :
    HeedsCall V made r := by
  refine fun parts => Passes.heedsAll (Tidy.passes ?_)
  cases r with
  | ok v => exact tidy
  | error i => exact tidy

theorem Answers.heedsCall {V : Visited} {callee : Node} {arguments : List Node} {name : String} {kind : Kind} {c : Closure}
    (form : V.node.form = .call callee arguments) (named : callee.form = .identifier name)
    (function : V.start.global? name = some ⟨kind, .closure c⟩) {made : List Visited} {r : Except Interrupt Value}
    (h : Answers c kind V.node.loc (V.start.callDepth + 1) made r) : HeedsCall V made r := by
  intro parts
  cases h with
  | unbound => exact heedsAll_nil _
  | interrupted ended => exact .cons (.handsOn rfl ended.symm) (heedsAll_nil _)
  | jumps ended => exact .cons (.reports rfl ended ⟨_, rfl⟩) (heedsAll_nil _)
  | falls normal rest => exact .cons (.goesOn normal) (HeedsCall.of_tidy rest parts)
  | returns body inside returned rest value =>
    refine .cons (.returns form named function body inside returned fun done ended => ?_) (HeedsCall.of_tidy rest parts)
    cases r with
    | error i => cases ended
    | ok u =>
      obtain ⟨w, result, own⟩ := value u rfl
      exact ⟨w, u, (Except.ok.inj ended).symm, result, own⟩

/-! ## Notes of programs -/

/-- A program heeds all of these parts. -/
def HeedsProgram (made : List Visited) (r : Except Interrupt Value) : Prop :=
  ∀ before P after, made = before ++ P :: after → Program.Heeds r P after

namespace HeedsProgram
variable {made : List Visited} {r : Except Interrupt Value}

theorem of_cut {i : Interrupt} (cut : Cut i made) : HeedsProgram made (.error i) := by
  intro before P after split
  rcases cut with normal | ⟨front, V, rfl, normal, same⟩
  · exact .goesOn (normal P (by rw [split]; simp))
  · rcases split_last split with member | ⟨rfl, -, last⟩
    · exact .goesOn (normal P member)
    · cases ended : P.ended with
      | ok c => exact .reports last ended rfl
      | error j =>
        obtain rfl := same j ended
        exact .interrupted last ended rfl

theorem of_tidy (tidy : Tidy made r) : HeedsProgram made r := by
  cases r with
  | ok v => exact fun before P after split => .goesOn (tidy P (by rw [split]; simp))
  | error i => exact of_cut tidy

/-- A `return` outside functions ends the program. -/
theorem of_returned {v : Value} (h : Passes made (.ok (.returned v))) : HeedsProgram made (.ok v) := by
  intro before P after split
  rcases h with normal | ⟨front, V, rfl, normal, ended⟩
  · exact .goesOn (normal P (by rw [split]; simp))
  · rcases split_last split with member | ⟨rfl, -, last⟩
    · exact .goesOn (normal P member)
    · exact .returns last ended rfl

theorem interrupt {v : Value} (h : HeedsProgram made (.ok v)) (i : Interrupt) : HeedsProgram made (.error i) := by
  intro before P after split
  cases h before P after split with
  | goesOn normal => exact .goesOn normal
  | interrupted last early same => cases same
  | returns last returned value => exact .reports last returned rfl
  | reports last completed early => cases early

end HeedsProgram

/-! ## Nothing is lost -/

/-- All these visits keep the law, and all that they make. -/
def AllKeep (made : List Visited) : Prop := ∀ V ∈ made, ∀ P : Visited, P.Within V → P.Keeps

/-- No completion is lost: a visit in the course of another one keeps the law, and is ended by
    every `return` that it reaches in its own call, unless it is interrupted. -/
def LosesNothing (V : Visited) : Prop := ∀ P : Visited, P.Within V → P.Keeps ∧
  ∀ R v, P.Reaches R → R.ended = .ok (.returned v) → P.ended = .ok (.returned v) ∨ P.Interrupted

theorem AllKeep.losesNothing {made : List Visited} (keep : AllKeep made) : ∀ V ∈ made, LosesNothing V :=
  fun V member P within =>
  ⟨keep V member P within, fun _ _ reaches returned =>
    Visited.returned_of_reaches (fun Q inside => keep V member Q (within.trans inside)) reaches returned⟩

end Visited
end MiniC
