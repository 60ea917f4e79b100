import MiniC.Proofs.Guards
import MiniC.Proofs.Trail

/-!
# The faults of evaluations

Every construct is guarded, whatever its tree and whatever its parts yield, and hence every
visit of a node (`Eval.Guards.visits`) and every run of a program. So the only invariant that
a run finds broken is that a node where a value is needed completes with one
(`broken_invariant_is_stray`).
-/

namespace MiniC
variable {σ α β : Type}

namespace Eval

/-! ## Visits of parts -/

/-- Visits that are guarded, at every site at which their nodes stand. -/
structure GuardsVisits (ctx : Context σ) (strict : Bool) (inner : Visitor σ) : Prop where
  own : ∃ fuel, inner = visitor ctx fuel
  visit (n : Node) (tag : FrameTag) (site : Site) (stands : n.Stands strict site) :
    Guards ctx strict (inner.visit n tag) (site.Admits strict)

namespace Guards
variable {ctx : Context σ} {strict : Bool} {inner : Visitor σ} (V : GuardsVisits ctx strict inner)
include V

/-- Where a value is needed a node completes with one, or the fault that it does not is told. -/
theorem expression {n : Node} (stands : n.Stands strict .operand) :
    Guards ctx strict (inner.expression n) fun _ => True := by
  intro m sound
  have visited := V.visit n .block .operand stands m sound
  obtain ⟨fuel, own⟩ := V.own
  unfold Visitor.expression Visitor.node
  rw [runOn_bind]
  have stray (m' : Machine σ) (c : Completion) (ended : runOn (inner.visit n .block) m = (.ok c, m')) (wrong : ∀ v, c ≠ .normal v) :
      (c.stray n.label m'.state.memory).Stray ctx m'.state.lastEvent := by
    subst own
    exact ⟨fuel, n, m, c, m', ended, wrong, rfl, lastEvent_of_visit ended⟩
  generalize runOn (inner.visit n .block) m = outcome at visited stray ⊢
  obtain ⟨⟨i⟩ | ⟨c⟩, m₁⟩ := outcome
  · exact visited
  · obtain ⟨sound₁, same, admits⟩ := visited
    have loose (refused : Site.operand.admits c = false) : strict = false := by
      cases strict with
      | false => rfl
      | true => exact absurd (admits rfl) (by rw [refused]; nofun)
    have told (refused : Site.operand.admits c = false) (stray : (c.stray n.label m₁.state.memory).Stray ctx m₁.state.lastEvent) :
        (c.stray n.label m₁.state.memory).Justified ctx strict m₁.state := by
      rcases c.stray_cases n.label m₁.state.memory with ⟨shown, -, reported⟩ | ⟨unknown, endless⟩
      · rw [reported] at stray ⊢
        exact ⟨loose refused, stray⟩
      · rw [endless] at stray ⊢
        obtain ⟨v, -, unending⟩ := Completion.outline?_eq_none.mp unknown
        exact ⟨loose refused, stray, unending.circular sound₁.arrays sound₁.memo⟩
    cases c with
    | normal v => exact ⟨sound₁, same, trivial⟩
    | jump j span => exact ⟨sound₁, told rfl (stray m₁ _ rfl nofun)⟩
    | returned v => exact ⟨sound₁, told rfl (stray m₁ _ rfl nofun)⟩

theorem forceWithin : ∀ (fuel : Nat) (v : Value), Guards ctx strict (inner.forceWithin fuel v) Value.Plain
  | 0, _ => outOfFuel
  | fuel + 1, v => by
    cases v with
    | lazy t => exact compute t fun e stands => bind (expression V stands) fun w _ => forceWithin fuel w
    | _ => exact pure rfl

theorem force (v : Value) : Guards ctx strict (inner.force v) Value.Plain := forceWithin V inner.fuel v

theorem actual {n : Node} (stands : n.Stands strict .operand) : Guards ctx strict (inner.actual n) Value.Plain :=
  bind (expression V stands) fun v _ => force V v

theorem holds {n : Node} (stands : n.Stands strict .operand) : Guards ctx strict (inner.holds n) fun _ => True :=
  bind (actual V stands) fun _ _ => pure trivial

theorem actuals {nodes : List Node} (stands : ∀ n ∈ nodes, n.Stands strict .operand) :
    Guards ctx strict (inner.actuals nodes) fun vs => ∀ v ∈ vs, v.Plain := mapM fun n member => actual V (stands n member)

omit V

/-! ## Operators -/

theorem applyBinary (op : BinaryOp) (v w : Value) (span : Option Span) :
    Guards ctx strict (Eval.applyBinary op v w span) Value.Plain := by
  have compared (f : Bool → Bool) : Guards ctx strict (do return Value.bool (f (← sameValues v w))) Value.Plain := by
    refine bind (Q := fun _ => True) (read fun s _ => ?_) fun same _ => pure rfl
    cases s.memory.same? v w with
    | none => exact stop fun _ => trivial
    | some same => exact pure trivial
  unfold Eval.applyBinary
  split
  · exact ofExcept (op.ordinary_onNumbers _ _ span) fun u result => (BinaryOp.simple_onNumbers result).plain
  · split
    · exact compared id
    · exact compared (!·)
    · exact fail rfl

/-! ## Places and assignments -/

theorem lookup (name : String) (span : Option Span) (s : State) :
    Guards ctx strict (Eval.ofExcept (s.lookup name span)) fun _ => True := by
  refine ofExcept ?_ fun _ _ => trivial
  unfold State.lookup
  split
  · exact .ok _
  · exact .error rfl

include V in
theorem element {base index : Node} (stands : base.Stands strict .operand) (stands' : index.Stands strict .operand)
    (span : Option Span) : Guards ctx strict (inner.element base index span) fun _ => True := by
  refine bind (actual V stands) fun v _ => bind (actual V stands') fun w _ => ?_
  split
  · refine read fun s _ => ?_
    dsimp only
    split
    · exact pure trivial
    · exact fail rfl
  · exact fail rfl
  · exact fail rfl

include V in
theorem place {target : Node} (stands : target.Stands strict .operand) (span : Option Span) :
    Guards ctx strict (inner.place target span) fun _ => True := by
  unfold Visitor.place
  split
  · exact read fun s _ => bind (lookup _ _ s) fun _ _ => pure trivial
  · rename_i object property form
    have parts : object.Stands strict .operand ∧ property.Stands strict .operand := by
      refine ⟨fun asked => ?_, fun asked => ?_⟩ <;>
        exact (Node.wellPlaced_iff.mp (stands asked)).2 (_, .operand) (by simp [form, Form.sites, Form.parts])
    have found (kind : Option Kind) : Guards ctx strict
        (inner.element object property span >>= fun found => Pure.pure (Place.element found.1 found.2 kind))
        fun _ => True := bind (element V parts.1 parts.2 span) fun _ _ => pure trivial
    split
    · exact read fun s _ => bind (lookup _ _ s) fun old _ => found (some old.kind.pointee)
    · exact found none
  · exact fail rfl

include V in
theorem readPlace (place : Place) (span : Option Span) : Guards ctx strict (inner.readPlace place span) Value.Plain := by
  refine read fun s _ => ?_
  cases place with
  | named name kind => exact bind (lookup name span s) fun old _ => force V old.value
  | element array index kind => exact force V _

/-- What is stored has been fitted to its place, and has been computed. -/
theorem writePlace (place : Place) {v : Value} (plain : v.Plain) (span : Option Span) :
    Guards ctx strict (Eval.writePlace place v span) Value.Plain := by
  unfold Eval.writePlace
  refine bind (Q := fun w => v.castTo? place.kind? span = .ok w)
    (ofExcept (Value.ordinary_castTo? plain _ span) fun _ => id) fun w fitted => ?_
  have plain' := Value.plain_castTo? plain fitted
  cases place with
  | named name kind =>
    refine bind (Q := fun _ => True) (attempt (fun s e fault => ?_) fun s sound => ?_) fun _ _ => pure plain'
    · unfold State.assignFault? at fault
      split at fault
      · cases fault
      · cases fault
        rfl
    · exact ⟨sound.store name (Value.bodied_cast fitted strict), State.sameControl_iff.mpr ⟨by simp, by simp⟩⟩
  | element r i kind =>
    exact bind (modify fun s sound => ⟨sound.setElement r i plain', rfl, rfl⟩) fun _ _ => pure plain'

section parts
include V

theorem newValue {right : Node} (op : AssignOp) (place : Place) (stands : right.Stands strict .operand)
    (span : Option Span) : Guards ctx strict (inner.newValue op place right span) Value.Plain := by
  have old : Guards ctx strict (op.binary?.mapM fun op => return (op, ← inner.readPlace place span)) fun _ => True := by
    cases op.binary? with
    | none => exact pure trivial
    | some op =>
      rw [Option.mapM_some, map_eq_pure_bind]
      exact bind (Q := fun _ => True) (bind (readPlace V place span) fun v _ => pure trivial) fun _ _ => pure trivial
  refine bind old fun old _ => bind (actual V stands) fun v plain => ?_
  refine bind (Q := Value.Plain) (ofExcept (Value.ordinary_castTo? plain _ _) fun w => Value.plain_castTo? plain)
    fun w plain' => ?_
  cases old with
  | none => exact pure plain'
  | some old => exact applyBinary old.1 old.2 w span

theorem assignment {left right : Node} (op : AssignOp) (stands : left.Stands strict .operand)
    (stands' : right.Stands strict .operand) (span : Option Span) :
    Guards ctx strict (inner.assign op left right span) Value.Plain := by
  rw [Visitor.assign_eq]
  exact bind (place V stands span) fun place _ => bind (newValue V op place stands' span) fun v plain =>
    writePlace place plain span

theorem step {argument : Node} (op : UpdateOp) (before : Bool) (stands : argument.Stands strict .operand)
    (span : Option Span) : Guards ctx strict (inner.step op argument before span) fun _ => True := by
  rw [Visitor.step_eq]
  refine bind (place V stands span) fun place _ => bind (Q := fun _ => True) ?_ fun old _ =>
    bind (writePlace place (Value.simple_number _).plain span) fun w _ => pure trivial
  refine bind (readPlace V place span) fun old _ => ?_
  split
  · exact fail rfl
  · exact pure trivial

end parts

/-! ## Declarations -/

theorem declare (name : String) (kind : Kind) {v : Value} (bodied : v.Bodied strict) (span : Option Span) :
    Guards ctx strict (Eval.declare name kind v span) fun _ => True := by
  refine attempt (fun s e fault => ?_) fun s sound =>
    ⟨sound.bind _ name bodied, State.sameControl_iff.mpr ⟨by simp, by simp⟩⟩
  unfold State.declareFault? at fault
  split at fault <;> cases fault
  rfl

theorem closure (name : Option String) (params : List Node) {body : Node} (stands : body.Stands strict (.statement false)) :
    Guards ctx strict (Eval.newClosure name params body) (Value.Bodied strict) := by
  refine bind (ofExcept (Q := fun _ => True) (ordinary_declaredParams params) fun _ _ => trivial) fun params _ => ?_
  refine bind (Q := fun c => c.body = body) (modifyGet fun s sound => ⟨?_, ⟨rfl, rfl⟩, rfl⟩) fun c same => pure ?_
  · exact sound.remember (fun t inside => .inl ⟨inside, rfl⟩) (fun _ _ => .inl) fun _ _ => .inl
  · rintro c' ⟨⟩
    rw [same]
    exact stands

theorem declareFunction (id : Node) (params : List Node) {body : Node} (stands : body.Stands strict (.statement false))
    (span : Option Span) : Guards ctx strict (Eval.declareFunction id params body span) fun _ => True := by
  refine bind (ofExcept (Q := fun _ => True) id.ordinary_declared fun _ _ => trivial) fun (name, kind) _ => ?_
  refine bind (closure (some name) params stands) fun v bodied => read fun s _ => ?_
  have bound (t : State) (sound : t.Sound strict) :
      (t.bind .global name ⟨kind, v⟩).Sound strict ∧ t.SameControl (t.bind .global name ⟨kind, v⟩) :=
    ⟨sound.bind _ name bodied, State.sameControl_iff.mpr ⟨by simp, by simp⟩⟩
  split
  · exact modify bound
  · refine attempt (fun s e fault => ?_) bound
    unfold State.declareFault? at fault
    split at fault <;> cases fault
    rfl

section parts
include V

theorem arrayLength {size : Node} (stands : size.Stands strict .operand) (span : Option Span) :
    Guards ctx strict (inner.arrayLength size span) fun _ => True := by
  refine bind (actual V stands) fun v _ => ?_
  split
  · split
    · split
      · exact fail rfl
      · exact pure trivial
    · exact fail rfl
  · exact fail rfl

theorem initialElements (element : Kind) (length : Nat) {initial : Node} (stands : initial.Stands strict .operand)
    (span : Option Span) :
    Guards ctx strict (inner.initialElements element length initial span) fun vs => ∀ v ∈ vs, v.Plain := by
  refine bind (actual V stands) fun v _ => ?_
  split
  · rename_i r _
    refine read fun s sound => ?_
    have fitted : Guards ctx strict ((s.memory.elements r).toList.mapM fun v => Eval.ofExcept (v.cast element span))
        fun vs => ∀ v ∈ vs, v.Plain :=
      mapM fun v member => ofExcept (Value.ordinary_cast (sound.arrays r v (by simpa using member)) _ _) fun w => Value.plain_cast
    dsimp only
    split
    · exact bind (Q := fun _ => True) (fail rfl) fun _ _ => fitted
    · exact fitted
  · exact fail rfl

theorem declaredElements (element : Kind) {size : Node} {initial : Option Node} (stands : size.Stands strict .operand)
    (stands' : ∀ n ∈ initial, n.Stands strict .operand) (span : Option Span) :
    Guards ctx strict (inner.declaredElements element size initial span) fun elements => ∀ v ∈ elements, v.Plain := by
  refine bind (arrayLength V stands _) fun length _ => ?_
  have filled (given : List Value) (plain : ∀ v ∈ given, v.Plain) : Guards ctx strict
      (Pure.pure (given.toArray ++ Array.replicate (length - given.length) element.zero))
      fun elements => ∀ v ∈ elements, v.Plain := by
    refine pure fun v member => ?_
    rcases Array.mem_append.mp member with old | new
    · exact plain v (by simpa using old)
    · rw [(Array.mem_replicate.mp new).2]
      exact element.simple_zero.plain
  cases initial with
  | none => exact filled [] nofun
  | some initial => exact bind (initialElements V element length (stands' initial rfl) _) filled

theorem declarator {strategy : Strategy} {d : Declarator} (stands : ∀ n ∈ d.parts, n.Stands strict .operand)
    (span : Option Span) : Guards ctx strict (inner.declarator strategy d span) fun _ => True := by
  have initials (n : Node) (given : n ∈ d.initial) := stands n (Declarator.mem_parts_of_initial given)
  refine bind (ofExcept (Q := fun _ => True) d.id.ordinary_declared fun _ _ => trivial) ?_
  rintro ⟨name, kind⟩ -
  refine checked rfl ?_
  cases sized : d.size with
  | some size =>
    dsimp only
    rw [Visitor.declaredArray_eq]
    simp only [bind_assoc, pure_bind]
    refine bind (declaredElements V kind (stands size (Declarator.mem_parts_of_size sized)) initials _) fun elements plain => ?_
    refine bind (Q := fun _ => True) (modifyGet fun s sound => ⟨sound.newArray plain, ⟨rfl, rfl⟩, trivial⟩) fun r _ => ?_
    exact declare name _ (Value.bodied_array strict r) _
  | none =>
    refine bind (Q := Value.Bodied strict) ?_ fun v bodied => declare name kind bodied _
    cases given : d.initial with
    | none => exact pure (kind.simple_zero.bodied strict)
    | some initial =>
      have stands := initials initial given
      cases strategy with
      | strict =>
        exact bind (actual V stands) fun v plain =>
          ofExcept (Value.ordinary_cast plain _ _) fun w fitted => Value.bodied_cast fitted strict
      | lazy =>
        have put : (initial.castTo kind).Stands strict .operand := fun asked =>
          Node.wellPlaced_castTo (stands asked) kind
        refine read fun s _ => bind (Q := fun _ => True) (modifyGet fun t sound => ?_) fun r _ =>
          pure (Value.bodied_lazy strict r)
        exact ⟨sound.newThunk put _, ⟨rfl, rfl⟩, trivial⟩

theorem declarators {strategy : Strategy} (span : Option Span) : ∀ {items : List Declarator},
    (∀ d ∈ items, ∀ n ∈ d.parts, n.Stands strict .operand) →
      Guards ctx strict (inner.declarators strategy span items) fun _ => True
  | [], _ => pure trivial
  | d :: _, stands => bind (declarator V (stands d List.mem_cons_self) span) fun _ _ =>
    declarators span fun d' member => stands d' (List.mem_cons_of_mem d member)

/-! ## Calls -/

omit V in
theorem bindParams (span : Option Span) : ∀ {items : List (Param × Value)}, (∀ item ∈ items, item.2.Plain) →
    Guards ctx strict (Eval.bindParams span items) fun _ => True
  | [], _ => pure trivial
  | (p, v) :: rest, plain => by
    refine bind (Q := Value.Bodied strict) ?_ fun w bodied => bind (declare p.name p.kind bodied span) fun _ _ => ?_
    · exact ofExcept (Value.ordinary_cast (plain _ List.mem_cons_self) _ _) fun w fitted => Value.bodied_cast fitted strict
    · exact bindParams span fun item member => plain item (List.mem_cons_of_mem _ member)

/-- The body of a function does not jump out of it. -/
theorem body {c : Closure} (stands : c.body.Stands strict (.statement false)) {arguments : List Value}
    (plain : ∀ v ∈ arguments, v.Plain) (span : Option Span) :
    Guards ctx strict (do Eval.bindParams span (c.params.zip arguments); inner.node c.body)
      ((Site.statement false).Admits strict) :=
  bind (bindParams span fun _ member => plain _ (List.of_mem_zip member).2) fun _ _ => V.visit c.body .block _ stands

theorem callClosure (limit : Nat) (name : String) {c : Closure} (stands : c.body.Stands strict (.statement false))
    (kind : Kind) {arguments : List Value} (plain : ∀ v ∈ arguments, v.Plain) (span : Option Span) :
    Guards ctx strict (inner.callClosure limit name c kind arguments span) fun _ => True := by
  have valued (done : Completion) (admits : (Site.statement false).Admits strict done) :
      Guards ctx strict (Eval.bodyValue done) fun _ => True := by
    cases done with
    | normal v => exact pure trivial
    | returned v => exact pure trivial
    | jump j span =>
      refine stop fun _ => ?_
      cases strict with
      | false => rfl
      | true => cases admits rfl
  have called : Guards ctx strict (inner.callBody c kind arguments span) fun _ => True := by
    have whole := bind (body V stands plain span) fun done admits => bind (valued done admits) fun v _ =>
      bind (force V v) fun w plain' =>
        ofExcept (Q := fun _ => True) (Value.ordinary_castResult plain' kind span) fun _ _ => trivial
    rwa [bind_assoc] at whole
  have checked : Guards ctx strict (Eval.checkDepth limit span) fun _ => True := by
    refine read fun s _ => ?_
    split
    · exact fail rfl
    · exact pure trivial
  have whole := bind checked fun _ _ => inCall name called
  unfold Visitor.callClosure
  dsimp only
  split
  · exact bind (Q := fun _ => True) (fail rfl) fun _ _ => whole
  · exact whole

theorem call (limit : Nat) {callee : Node} {arguments : List Node} (stands : ∀ n ∈ arguments, n.Stands strict .operand)
    (span : Option Span) : Guards ctx strict (inner.call limit callee arguments span) fun _ => True := by
  unfold Visitor.call
  split
  · refine read fun s sound => ?_
    split
    · exact fail rfl
    · rename_i kind c found
      have body := sound.functions 0 _ (Bindings.mem_of_get? found) c rfl
      exact bind (actuals V stands) fun vs plain => callClosure V limit _ body kind plain span
    · rename_i f _
      refine bind (actuals V stands) fun vs plain => bind (ofExcept (Q := fun _ => True) (f.ordinary_apply plain span)
        fun _ _ => trivial) fun r _ => ?_
      exact bind (modify fun s sound => ⟨sound.restack rfl rfl, ⟨rfl, rfl⟩⟩) fun _ _ => pure trivial
    · exact fail rfl
  · exact fail rfl

/-! ## Loops -/

omit V in
/-- What passes on is admitted in every loop, and by every site that a loop may stand at. -/
theorem settled_of_endsLoop {c c' : Completion} (ends : c' ∈ c.endsLoop?) : (Site.statement false).admits c' = true := by
  cases c with
  | normal v => cases ends
  | jump j span =>
    cases j with
    | breakLoop =>
      cases ends
      rfl
    | continueLoop => cases ends
  | returned v =>
    cases ends
    rfl

omit V in
theorem rounds {round : Eval σ (Option Completion)} {q : Completion → Prop}
    (h : Guards ctx strict round fun c => ∀ c' ∈ c, q c') : ∀ fuel, Guards ctx strict (Eval.rounds round fuel) q
  | 0 => outOfFuel
  | fuel + 1 => by
    refine bind h fun c settled => ?_
    cases c with
    | none => exact rounds h fuel
    | some c => exact pure (settled c rfl)

theorem loopTest {test : Node} (stands : test.Stands strict .operand) :
    Guards ctx strict (inner.loopTest test) fun c => ∀ c' ∈ c, (Site.statement false).admits c' = true := by
  refine bind (holds V stands) fun holds _ => pure fun c' member => ?_
  cases holds with
  | true => cases member
  | false =>
    cases member
    rfl

theorem loopBody {body : Node} (stands : body.Stands strict (.statement true)) (kind : LoopKind) :
    Guards ctx strict (inner.loopBody body kind) fun c => ∀ c' ∈ c, (Site.statement false).admits c' = true :=
  bind (V.visit body _ _ stands) fun _ _ => pure fun _ ends => settled_of_endsLoop ends

theorem whileLoop {test body : Node} (stands : test.Stands strict .operand) (stands' : body.Stands strict (.statement true)) :
    Guards ctx strict (inner.whileLoop test body) fun c => (Site.statement false).admits c = true := by
  refine rounds (bind (loopTest V stands) fun c settled => ?_) _
  cases c with
  | none => exact loopBody V stands' _
  | some c => exact pure settled

theorem doLoop {body test : Node} (stands : body.Stands strict (.statement true)) (stands' : test.Stands strict .operand) :
    Guards ctx strict (inner.doLoop body test) fun c => (Site.statement false).admits c = true := by
  refine rounds (bind (loopBody V stands _) fun c settled => ?_) _
  cases c with
  | none => exact loopTest V stands'
  | some c => exact pure settled

theorem forRound {test next : Option Node} {body : Node} (stands : body.Stands strict (.statement true))
    (tests : ∀ n ∈ test, n.Stands strict .operand) (nexts : ∀ n ∈ next, n.Stands strict .operand) :
    Guards ctx strict (inner.forRound test next body) fun c => ∀ c' ∈ c, (Site.statement false).admits c' = true := by
  have tested : Guards ctx strict (inner.forTest test) fun c => ∀ c' ∈ c, (Site.statement false).admits c' = true := by
    cases test with
    | none => exact pure nofun
    | some test => exact loopTest V (tests test rfl)
  refine bind tested fun c settled => ?_
  cases c with
  | some c => exact pure settled
  | none =>
    refine bind (loopBody V stands _) fun c settled => ?_
    cases c with
    | some c => exact pure settled
    | none =>
      cases next with
      | none => exact pure nofun
      | some next =>
        refine bind (Q := fun _ => True) ?_ fun _ _ => pure nofun
        exact bind (expression V (nexts next rfl)) fun _ _ => pure trivial

theorem forLoop {start test next : Option Node} {body : Node} (stands : body.Stands strict (.statement true))
    (starts : ∀ n ∈ start, n.Stands strict .initial) (tests : ∀ n ∈ test, n.Stands strict .operand)
    (nexts : ∀ n ∈ next, n.Stands strict .operand) :
    Guards ctx strict (inner.forLoop start test next body) fun c => (Site.statement false).admits c = true := by
  have repeated : Guards ctx strict (Eval.rounds (inner.forRound test next body) inner.fuel)
      fun c => (Site.statement false).admits c = true := rounds (forRound V stands tests nexts) _
  refine inFrame _ ?_
  cases start with
  | none => exact repeated
  | some start =>
    refine bind (Q := fun _ => True) ?_ fun _ _ => repeated
    exact bind (V.visit start .block .initial (starts start rfl)) fun _ _ => pure trivial

/-! ## Statements and expressions -/

omit V in
theorem admits_normal (site : Site) (v : Value) : site.Admits strict (.normal v) := fun _ => by cases site <;> rfl

theorem statements {site : Site} (last : Value) : ∀ {body : List Node}, (∀ n ∈ body, n.Stands strict site) →
    Guards ctx strict (inner.statements last body) (site.Admits strict)
  | [], _ => pure (admits_normal site last)
  | n :: rest, stands => by
    refine bind (V.visit n .block site (stands n List.mem_cons_self)) fun c admits => ?_
    cases c with
    | normal v => exact statements v fun n' member => stands n' (List.mem_cons_of_mem n member)
    | jump j span => exact pure admits
    | returned v => exact pure admits

theorem block {site : Site} {body : List Node} (stands : ∀ n ∈ body, n.Stands strict site) (tag : FrameTag) :
    Guards ctx strict (inner.block body tag) (site.Admits strict) := by
  refine inFrame tag (bind (statements V .void stands) fun c admits => ?_)
  cases c with
  | normal v => exact bind (force V v) fun w _ => pure (admits_normal site w)
  | jump j span => exact pure admits
  | returned v => exact pure admits

theorem branch {site : Site} {test consequent : Node} {alternate : Option Node} (stands : test.Stands strict .operand)
    (stands' : consequent.Stands strict site) (alternates : ∀ n ∈ alternate, n.Stands strict site) :
    Guards ctx strict (inner.branch test consequent alternate) (site.Admits strict) := by
  refine bind (holds V stands) fun holds _ => ?_
  cases holds with
  | true => exact V.visit consequent .block site stands'
  | false =>
    cases alternate with
    | none => exact pure (admits_normal site .void)
    | some alternate => exact V.visit alternate .block site (alternates alternate rfl)

theorem logical (op : LogicalOp) {left right : Node} (stands : left.Stands strict .operand)
    (stands' : right.Stands strict .operand) : Guards ctx strict (inner.logical op left right) fun _ => True := by
  refine bind (holds V stands) fun _ _ => ?_
  split
  · exact pure trivial
  · exact pure trivial
  · exact bind (holds V stands') fun _ _ => pure trivial

theorem sequence (last : Value) : ∀ {items : List Node}, (∀ n ∈ items, n.Stands strict .operand) →
    Guards ctx strict (inner.sequence last items) fun _ => True
  | [], _ => (force V last).conclude fun _ _ => trivial
  | n :: _, stands => bind (expression V (stands n List.mem_cons_self)) fun v _ =>
    sequence v fun n' member => stands n' (List.mem_cons_of_mem n member)

/-- A node is evaluated by its form: what it consists of stands at its sites, and it completes
    as its own site admits. -/
theorem byForm {n : Node} {site : Site} (stands : n.Stands strict site) (tag : FrameTag) :
    Guards ctx strict (Eval.byForm ctx.settings inner n tag) (site.Admits strict) := by
  have may : strict = true → n.form.mayStand site = true := fun asked => (Node.wellPlaced_iff.mp (stands asked)).1
  have parts : ∀ c ∈ n.form.sites site, c.1.Stands strict c.2 := fun c member asked =>
    (Node.wellPlaced_iff.mp (stands asked)).2 c member
  have result {q : Value → Prop} {x : Eval σ Value} (h : Guards ctx strict x q) :
      Guards ctx strict (do return Completion.normal (← x)) (site.Admits strict) := bind h fun v _ => pure (admits_normal site v)
  -- what no loop takes passes on where statements stand
  have statement {c : Completion} (passes : (Site.statement false).admits c = true) (form : n.form.isStatement = true)
      (other : (∀ e, n.form ≠ .expression e) ∧ ∀ d, n.form ≠ .declaration d) : site.Admits strict c := fun asked => by
    obtain ⟨looped, rfl⟩ := Form.exists_of_mayStand (may asked) form other
    cases c with
    | jump j span => cases passes
    | _ => rfl
  unfold Eval.byForm
  dsimp only
  generalize n.form = form at may parts statement ⊢
  have part (c : Node) (place : Site) (member : (c, place) ∈ form.sites site) : c.Stands strict place := parts (c, place) member
  cases form with
  | block body => exact block V (fun c member => part c site (by simp [Form.sites, member])) tag
  | expression e => exact result (expression V (part e .operand (by simp [Form.sites, Form.parts])))
  | declaration declarators =>
    refine bind (Guards.declarators V _ fun d among c member => part c .operand ?_) fun _ _ => pure (admits_normal site .void)
    exact List.mem_map_of_mem (List.mem_flatMap.mpr ⟨d, among, member⟩)
  | function id params body =>
    exact bind (declareFunction id params (part body (.statement false) (by simp [Form.sites])) _) fun _ _ =>
      pure (admits_normal site .void)
  | branch test consequent alternate =>
    exact branch V (part test .operand (by simp [Form.sites])) (part consequent site (by simp [Form.sites]))
      fun c member => part c site (by cases member; simp [Form.sites])
  | whileLoop test body =>
    exact (whileLoop V (part test .operand (by simp [Form.sites])) (part body (.statement true) (by simp [Form.sites]))).conclude
      fun c passes => statement passes rfl ⟨by simp, by simp⟩
  | doLoop body test =>
    exact (doLoop V (part body (.statement true) (by simp [Form.sites])) (part test .operand (by simp [Form.sites]))).conclude
      fun c passes => statement passes rfl ⟨by simp, by simp⟩
  | forLoop start test next body =>
    exact (forLoop V (part body (.statement true) (by simp [Form.sites]))
      (fun c member => part c .initial (by cases member; simp [Form.sites]))
      (fun c member => part c .operand (by cases member; simp [Form.sites]))
      fun c member => part c .operand (by cases member; simp [Form.sites])).conclude
      fun c passes => statement passes rfl ⟨by simp, by simp⟩
  | breakLoop =>
    refine pure fun asked => ?_
    have := may asked
    cases site <;> exact this
  | continueLoop =>
    refine pure fun asked => ?_
    have := may asked
    cases site <;> exact this
  | returnValue argument =>
    cases argument with
    | none => exact pure (statement rfl rfl ⟨by simp, by simp⟩)
    | some argument =>
      exact bind (actual V (part argument .operand (by simp [Form.sites, Form.parts]))) fun v _ =>
        pure (statement (c := .returned v) rfl rfl ⟨by simp, by simp⟩)
  | literal value => cases value <;> exact pure (admits_normal site _)
  | identifier name => exact read fun s _ => bind (lookup name _ s) fun b _ => pure (admits_normal site b.value)
  | binary op left right =>
    exact bind (actual V (part left .operand (by simp [Form.sites, Form.parts]))) fun v _ =>
      bind (actual V (part right .operand (by simp [Form.sites, Form.parts]))) fun w _ => result (applyBinary op v w _)
  | logical op left right =>
    exact result (logical V op (part left .operand (by simp [Form.sites, Form.parts]))
      (part right .operand (by simp [Form.sites, Form.parts])))
  | unary op argument =>
    exact bind (actual V (part argument .operand (by simp [Form.sites, Form.parts]))) fun v _ =>
      result (ofExcept (Q := fun _ => True) (op.ordinary_apply v _) fun _ _ => trivial)
  | assign op left right =>
    exact result (assignment V op (part left .operand (by simp [Form.sites, Form.parts]))
      (part right .operand (by simp [Form.sites, Form.parts])) _)
  | update op argument before =>
    exact result (step V op before (part argument .operand (by simp [Form.sites, Form.parts])) _)
  | call callee arguments =>
    exact result (call V _ (fun c member => part c .operand (by simp [Form.sites, Form.parts, member])) _)
  | choice test consequent alternate =>
    refine bind (holds V (part test .operand (by simp [Form.sites, Form.parts]))) fun holds _ => result (actual V ?_)
    cases holds with
    | true => exact part consequent .operand (by simp [Form.sites, Form.parts])
    | false => exact part alternate .operand (by simp [Form.sites, Form.parts])
  | sequence expressions =>
    exact result (sequence V .void fun c member => part c .operand (by simp [Form.sites, Form.parts, member]))
  | member object property computed =>
    have stands := part object .operand (by simp [Form.sites, Form.parts])
    cases computed with
    | false =>
      refine bind (actual V stands) fun v plain => ?_
      refine bind (ofExcept (Q := fun _ => True) property.ordinary_kind fun _ _ => trivial) fun kind _ => ?_
      exact result (ofExcept (Q := fun _ => True) (Value.ordinary_cast plain kind _) fun _ _ => trivial)
    | true =>
      refine bind (element V stands (part property .operand (by simp [Form.sites, Form.parts])) _) fun a _ => ?_
      exact read fun s _ => result (force V _)
  | array elements =>
    refine bind (actuals V fun c member => part c .operand (by simp [Form.sites, Form.parts, member])) fun vs plain => ?_
    refine bind (Q := fun _ => True) (modifyGet fun s sound => ⟨sound.newArray ?_, ⟨rfl, rfl⟩, trivial⟩) fun r _ =>
      pure (admits_normal site (.array r))
    exact fun v member => plain v (by simpa using member)
  | lambda params body => exact result (closure none params (part body (.statement false) (by simp [Form.sites])))
  | typeTag name pointers => exact fail rfl

end parts

/-- Every visit is guarded, at every site at which its node stands. -/
theorem visits (ctx : Context σ) (strict : Bool) : ∀ fuel : Nat, GuardsVisits ctx strict (visitor ctx fuel)
  | 0 => ⟨⟨0, rfl⟩, fun _ _ _ _ => outOfFuel⟩
  | fuel + 1 => ⟨⟨fuel + 1, rfl⟩, fun n tag _ stands => bracket n.summary (byForm (visits ctx strict fuel) stands tag)⟩

/-- Every run of a program is guarded. -/
theorem program (ctx : Context σ) (strict : Bool) (fuel : Nat) {p : Program}
    (stands : ∀ n ∈ p.body, n.Stands strict (.statement false)) :
    Guards ctx strict (program ctx (visitor ctx fuel) p) fun _ => True := by
  have V := visits ctx strict fuel
  rw [program_eq]
  refine bracket p.summary (bind (statements V .void stands) fun c admits => ?_)
  cases c with
  | returned v => exact pure trivial
  | jump j span =>
    refine stop fun _ => ?_
    cases strict with
    | false => rfl
    | true => cases admits rfl
  | normal last =>
    refine bind (force V last) fun v _ => ?_
    cases entry : p.entryCall? ctx.settings with
    | none => exact pure trivial
    | some call => exact (actual V fun _ => p.wellPlaced_entryCall entry).conclude fun _ _ => trivial

end Guards
end Eval

/-! ## Tasks -/

/-- The last event is remembered when an error is recorded. -/
theorem State.lastEvent_recover (s : State) (e : EvalError) : (s.recover e).lastEvent = s.lastEvent := by
  have cleared (t : State) (stack : List FrameRef) : (t.clearAll stack).lastEvent = t.lastEvent := by
    induction stack generalizing t with
    | nil => rfl
    | cons r rest ih =>
      refine (ih _).trans ?_
      unfold State.clearIfGone
      split
      · rfl
      · cases r <;> rfl
  exact cleared { s with errors := s.errors.push e } s.stack

/-- An error is justified also when it has been recorded. -/
theorem Interrupt.Justified.recover {ctx : Context σ} {strict : Bool} {s : State} {e : EvalError}
    (h : (Interrupt.error e).Justified ctx strict s) (e' : EvalError) : (Interrupt.error e).Justified ctx strict (s.recover e') := by
  cases e with
  | invariant fault =>
    refine ⟨h.1, ?_⟩
    rw [State.lastEvent_recover]
    exact h.2
  | _ => exact h

/-- A task that is run from a sound state leaves a sound one, and its early end is justified. -/
theorem Task.guarded {strict : Bool} (t : Task) {s : State} (sound : s.Sound strict)
    (stands : ∀ n ∈ t.program.body, n.Stands strict (.statement false)) :
    (t.run s).2.Sound strict ∧ ∀ i, t.result s = .error i →
      i.Justified ⟨t.settings, t.observer.keeping⟩ strict (t.run s).2 := by
  obtain ⟨m, ran, left, -⟩ := t.ran s
  have done := Eval.Guards.program ⟨t.settings, t.observer.keeping⟩ strict t.fuel stands
    ⟨s.beginEvaluation, (t.watch, [])⟩ sound.beginEvaluation
  rw [ran] at done
  rw [left]
  generalize t.result s = result at done ⊢
  rcases result with ⟨i⟩ | ⟨v⟩
  · obtain ⟨sound', justified⟩ := done
    cases i with
    | error e =>
      refine ⟨sound'.recover e, ?_⟩
      rintro _ ⟨⟩
      exact justified.recover e
    | _ =>
      refine ⟨sound', ?_⟩
      rintro _ ⟨⟩
      exact justified
  · exact ⟨done.1, fun i same => by cases same⟩

/-- Tasks leave a sound state when they are run from one. -/
theorem State.Sound.after {strict : Bool} {s : State} (sound : s.Sound strict) {tasks : List Task}
    (stands : ∀ t ∈ tasks, ∀ n ∈ t.program.body, n.Stands strict (.statement false)) : (s.after tasks).Sound strict := by
  induction tasks generalizing s with
  | nil => exact sound
  | cons t rest ih =>
    obtain ⟨first, others⟩ := List.forall_mem_cons.mp stands
    exact ih (t.guarded sound first).1 others

/-- The only invariant that a program finds broken, whatever its tree, its settings and its
    observer and whatever has been run before: a node that stands where a value is needed has
    completed with a jump or a `return`. The fault names the node and shows the completion, and
    the last event is that the node was left. -/
theorem broken_invariant_is_stray (tasks : List Task) (t : Task) (fault : InvariantFault)
    (broken : t.result (State.seeded.after tasks) = .error (.error (.invariant fault))) :
    ∃ (fuel : Nat) (n : Node) (m : Machine (t.memory × List State)) (c : Completion) (m' : Machine (t.memory × List State))
      (shown : String),
      Eval.runOn ((Eval.visitor ⟨t.settings, t.observer.keeping⟩ fuel).node n) m = (.ok c, m') ∧ (∀ v, c ≠ .normal v) ∧
      c.outline? m'.state.memory = some shown ∧ fault = .strayCompletion n.label shown ∧
      (t.run (State.seeded.after tasks)).2.lastEvent = some (.exit n.summary) := by
  have sound : (State.seeded.after tasks).Sound false := (State.Sound.seeded false).after fun _ _ _ _ => nofun
  obtain ⟨-, fuel, n, m, c, m', ended, wrong, told, last⟩ := (t.guarded sound fun _ _ => nofun).2 _ broken
  rcases c.stray_cases n.label m'.state.memory with ⟨shown, outlined, reported⟩ | ⟨-, endless⟩
  · cases told.trans reported
    exact ⟨fuel, n, m, c, m', shown, ended, wrong, outlined, rfl, last⟩
  · cases told.trans endless

/-- A `break` as the operand of a sum, on a state whose last program was halted in a block. -/
theorem broken_invariant_is_stray_break :
    let halted : Task := ⟨{}, .haltingAt fun _ s => s.steps == 3, (), 20, ⟨[Tree.block [Tree.expr (Tree.num 1.0)]], none⟩⟩
    let t : Task := ⟨{ strategy := .lazy }, .silent, (), 20,
      ⟨[Tree.var "int" "x" (some (Tree.bin .add (Tree.num 1.0) Tree.breakLoop)), Tree.expr (Tree.ident "x")], none⟩⟩
    t.result (State.seeded.after [halted]) = .error (.error (.invariant (.strayCompletion .breakStatement "Break(None)"))) ∧
      ∃ loc, (t.run (State.seeded.after [halted])).2.lastEvent = some (.exit ⟨.breakStatement, loc⟩) := by
  intro halted t
  have broken : t.result (State.seeded.after [halted]) =
      .error (.error (.invariant (.strayCompletion .breakStatement "Break(None)"))) :=
    by decide +kernel
  obtain ⟨fuel, n, m, c, m', shown, -, -, -, same, last⟩ := broken_invariant_is_stray [halted] t _ broken
  obtain ⟨label, -⟩ := InvariantFault.strayCompletion.inj same
  exact ⟨broken, n.loc, by rw [last, label]; rfl⟩

end MiniC
