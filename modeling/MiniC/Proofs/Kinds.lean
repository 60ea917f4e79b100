import MiniC.Proofs.Runs

/-!
# Declared kinds

A binding is under the kind of its declaration, and its value should fit that kind. An
assignment fits what it stores to the kind that its target had before the right side was
evaluated, and then looks the target up a second time; so this holds as long as the right side
leads the second look-up to no other binding and does not change the kind of a function. A
program in which no right side and no initialiser declares a variable, and in which a function
is declared again only under the same kind, is steady: there every binding respects its kind
(`Program.kinds_respected`).
-/

namespace MiniC
variable {σ : Type}

namespace State

/-- A binding respects its kind: it is that of a function, or of an initialiser that was put
    off as a cast to the kind and fits it once it has been computed, or it fits. -/
def Respects (s : State) (b : Binding) : Prop :=
  b.value.type = .function ∨
  (∃ (t : ThunkRef) (e : Node), b.value = .lazy t ∧ (s.memory.thunk t).expression = e.castTo b.kind ∧
    ∀ v, (s.memory.thunk t).memo? = some v → v.Fits b.kind) ∨
  (b.value.Plain ∧ b.value.Fits b.kind)

end State

/-! ## Steady programs -/

/-- An array of elements of the kind has a kind of its own. -/
def Kind.Arrayed (k : Kind) : Prop := k.pointers + 1 ≠ 0

instance (k : Kind) : Decidable k.Arrayed := inferInstanceAs (Decidable (k.pointers + 1 ≠ 0))

theorem Kind.Arrayed.isPointer {k : Kind} (h : k.Arrayed) : k.pointerTo.isPointer = true := by
  refine decide_eq_true (UInt32.lt_iff_toNat_lt.mpr (Nat.pos_of_ne_zero fun zero => h ?_))
  exact UInt32.toNat_inj.mp zero

/-- A declarator whose initialiser declares nothing, and whose kind can be that of elements if
    it declares an array. -/
def Declarator.steady (d : Declarator) : Bool :=
  d.initial.all (!·.introduces) && (d.size.isNone ||
    match d.id.declared with
    | .ok (_, kind) => decide kind.Arrayed
    | .error _ => true)

/-- The forms of steady programs, whose functions have certain kinds. -/
def Form.steady (kinds : String → Kind) : Form → Bool
  | .assign _ _ right => !right.introduces
  | .declaration declarators => declarators.all (·.steady)
  | .function id _ _ =>
    match id.declared with
    | .ok (name, kind) => kind == kinds name
    | .error _ => true
  | _ => true

section steady
variable {kinds : String → Kind}

theorem lenient_steady (kinds : String → Kind) : Lenient (Form.steady kinds) :=
  ⟨fun _ _ => rfl, fun _ _ => rfl, fun _ _ => rfl, fun _ => rfl⟩

/-- Nothing can come between the two look-ups of an assignment. -/
theorem Between.steady {b : Bool} (between : Between (Form.steady kinds) b) : b = false := by
  cases b with
  | false => rfl
  | true =>
    obtain ⟨op, left, right, permitted, introduces⟩ := between rfl
    rw [Form.steady, introduces] at permitted
    cases permitted

theorem Declarator.steady_of_mem {declarators : List Declarator} {d : Declarator}
    (permitted : Form.steady kinds (.declaration declarators) = true) (among : d ∈ declarators) : d.steady = true :=
  List.all_eq_true.mp permitted d among

end steady

/-! ## Kinds that last -/

/-- Names keep their kinds in the frames of the chain, and new ones come only in the global
    frame and, if the flag says so, in the one on top. -/
structure State.Keeps (b : Bool) (s s' : State) : Prop where
  kinds (n : Nat) : .numbered n ∈ s.chain → ∀ name old, s.get? (.numbered n) name = some old →
    ∃ v, s'.get? (.numbered n) name = some ⟨old.kind, v⟩
  fresh (n : Nat) : .numbered n ∈ s.chain → ∀ name, s.get? (.numbered n) name = none →
    (s'.get? (.numbered n) name).isSome = true → (b = true ∧ .numbered n = s.top) ∨ n = globalNumber

namespace State.Keeps
variable {b c : Bool} {s s' s'' : State}

/-- The frames of the chain do not change. -/
theorem still (frames : ∀ r ∈ s.chain, s'.frame r = s.frame r) : s.Keeps b s' := by
  refine ⟨fun n member name old found => ⟨old.value, ?_⟩, fun n member name free bound => ?_⟩
  · rwa [get?, frames _ member]
  · rw [get?, frames _ member] at bound
    rw [get?] at free
    rw [free] at bound
    cases bound

theorem trans (h : s.Keeps b s') (h' : s'.Keeps b s'') (chain : s'.stack = s.stack) : s.Keeps b s'' := by
  have same : s'.chain = s.chain := by rw [State.chain, State.chain, chain]
  have top : s'.top = s.top := by rw [State.top, State.top, chain]
  refine ⟨fun n member name old found => ?_, fun n member name free bound => ?_⟩
  · obtain ⟨v, found'⟩ := h.kinds n member name old found
    exact h'.kinds n (same ▸ member) name ⟨old.kind, v⟩ found'
  · cases middle : s'.get? (.numbered n) name with
    | some m => exact h.fresh n member name free (by rw [middle]; rfl)
    | none => exact top ▸ h'.fresh n (same ▸ member) name middle bound

theorem weaken (h : s.Keeps c s') (within : c = true → b = true) : s.Keeps b s' :=
  ⟨h.kinds, fun n member name free bound => (h.fresh n member name free bound).imp_left (.imp_left within)⟩

/-- A name is bound in a frame, anew or under the kind that it has there. -/
theorem bind {m : Nat} {name : String} {kind : Kind} {v : Value}
    (allowed : (b = true ∧ .numbered m = s.top) ∨ m = globalNumber ∨ s.get? (.numbered m) name ≠ none)
    (same : ∀ old, s.get? (.numbered m) name = some old → old.kind = kind) :
    s.Keeps b (s.bind (.numbered m) name ⟨kind, v⟩) := by
  refine ⟨fun n member x old found => ?_, fun n member x free bound => ?_⟩
  · rw [get?_bind]
    split
    · rename_i here
      obtain ⟨here, -, rfl⟩ := here
      cases here
      exact ⟨v, by rw [same old found]⟩
    · exact ⟨old.value, found⟩
  · rw [get?_bind] at bound
    split at bound
    · rename_i here
      obtain ⟨here, -, rfl⟩ := here
      cases here
      rcases allowed with top | outermost | known
      · exact .inl top
      · exact .inr outermost
      · exact absurd free known
    · rw [free] at bound
      cases bound

/-- A value changes under its kind. -/
theorem store (s : State) (name : String) (v : Value) : s.Keeps b (s.store name v) := by
  refine ⟨fun n _ x old found => ?_, fun n _ x free bound => ?_⟩
  · rw [get?_store, found]
    split
    · exact ⟨v, rfl⟩
    · exact ⟨old.value, rfl⟩
  · rw [get?_store, free] at bound
    split at bound <;> cases bound

/-- What happens in a frame of its own leaves the frames below it alone. -/
theorem enclosed {u u' : State} (inner : u.Keeps c u') (before : ∀ r ∈ s.chain, r ∈ u.chain ∧ u.frame r = s.frame r)
    (after : ∀ r ∈ s.chain, s'.frame r = u'.frame r) (apart : c = true → u.top ∉ s.chain) : s.Keeps b s' := by
  refine ⟨fun n member name old found => ?_, fun n member name free bound => ?_⟩
  · obtain ⟨among, same⟩ := before _ member
    rw [get?, after _ member]
    exact inner.kinds n among name old (by rwa [get?, same])
  · obtain ⟨among, same⟩ := before _ member
    rw [get?, after _ member] at bound
    rcases inner.fresh n among name (by rwa [get?, same]) bound with ⟨here, top⟩ | outermost
    · exact absurd (top ▸ member) (apart here)
    · exact .inr outermost

/-- A frame that is pushed and given up again leaves those below it alone. -/
theorem pushed {u u' : State} (tag : FrameTag) (parent : FrameRef) (inner : u.Keeps c u') (L : s.Lexical) (L' : u'.Lexical)
    (frames : u.frames = (s.pushInside tag parent).2.frames) (stack : u.stack = .numbered s.frames.size :: s.stack)
    (control : u'.stack = u.stack) (dropped : s'.frames = u'.dropTop.frames) : s.Keeps b s' := by
  have numbered {r : FrameRef} (member : r ∈ s.chain) : ∃ n < s.frames.size, r = .numbered n :=
    L.inside_of_mem L.stacked r member
  refine inner.enclosed (fun r member => ?_) (fun r member => ?_) fun _ among => ?_
  · obtain ⟨n, inside, rfl⟩ := numbered member
    refine ⟨by rw [State.chain, stack]; exact List.mem_cons_of_mem _ member, ?_⟩
    rw [State.frame, frames]
    exact frame_pushInside_of_lt tag parent inside
  · obtain ⟨n, -, rfl⟩ := numbered member
    rw [State.frame, dropped]
    show u'.dropTop.frame (.numbered n) = _
    refine frame_dropTop_of_chain L' ?_
    rwa [State.chain, dropTop_stack, control, stack]
  · obtain ⟨n, inside, same⟩ := numbered among
    rw [State.top, stack] at same
    exact absurd (FrameRef.numbered.inj same) (Nat.ne_of_gt inside)

/-- A frame that is re-entered for something that declares nothing there is left as it was. -/
theorem reentered {u u' : State} {r : FrameRef} (inner : u.Keeps false u') (L : s.Lexical) (L' : u'.Lexical)
    (frames : u.frames = s.frames) (stack : u.stack = r :: s.stack) (control : u'.stack = u.stack)
    (dropped : s'.frames = u'.dropTop.frames) : s.Keeps b s' := by
  refine inner.enclosed (fun q member => ?_) (fun q member => ?_) nofun
  · obtain ⟨n, -, rfl⟩ := L.inside_of_mem L.stacked q member
    refine ⟨by rw [State.chain, stack]; exact List.mem_cons_of_mem _ member, ?_⟩
    rw [State.frame, State.frame, frames]
  · obtain ⟨n, -, rfl⟩ := L.inside_of_mem L.stacked q member
    rw [State.frame, dropped]
    show u'.dropTop.frame (.numbered n) = _
    refine frame_dropTop_of_chain L' ?_
    rwa [State.chain, dropTop_stack, control, stack]

/-- A name that was looked up is found in the same frame and under the same kind. -/
theorem lookup (h : s.Keeps false s') (L : s.Lexical) (grows : s.Grows s') (stack : s'.stack = s.stack) {name : String}
    {span : Option Span} {old : Binding} (found : s.lookup name span = .ok old) :
    ∃ n v, s'.lookupFrame? name = some (.numbered n) ∧ s'.get? (.numbered n) name = some ⟨old.kind, v⟩ := by
  obtain ⟨r, located, bound⟩ := lookupFrame_of_lookup found
  have among := List.mem_of_find?_eq_some located
  obtain ⟨j, rfl⟩ : ∃ j, r = .numbered j := ⟨_, (L.numbered_of_mem_scope among).2⟩
  obtain ⟨m, small, top⟩ := L.top_inside
  have scope : s.scope = s.scopeOf (.numbered m) := by rw [← top]; rfl
  have scope' : s'.scope = s.scope := by
    have top' : s'.top = .numbered m := by rw [State.top, stack]; exact top
    rw [scope, ← grows.scopeOf small, ← top']
    rfl
  -- the scope goes on from the frame, and what comes before is inside the global frame
  rw [scope] at among
  obtain ⟨inner, split, -, -, newer⟩ := L.scopeOf_split small among
  have absent : inner.find? (fun q => (s.frame q).bindings.contains name) = none := by
    refine Option.eq_none_iff_forall_ne_some.mpr fun q found => ?_
    rw [State.lookupFrame?, scope, split, List.find?_append, found, Option.some_or] at located
    cases located
    exact absurd (newer _ (List.mem_of_find?_eq_some found)) (Nat.lt_irrefl _)
  have absent' : inner.find? (fun q => (s'.frame q).bindings.contains name) = none := by
    refine List.find?_eq_none.mpr fun q member bound => ?_
    obtain ⟨k, -, rfl⟩ : ∃ k < s.frames.size, q = .numbered k := by
      have seen : q ∈ s.scope := by rw [scope, split]; exact List.mem_append_left _ member
      obtain ⟨exists_q, numbered⟩ := L.numbered_of_mem_scope seen
      exact ⟨_, exists_q, numbered⟩
    have held := L.mem_chain_of_mem_scope (by rw [scope, split]; exact List.mem_append_left _ member : FrameRef.numbered k ∈ s.scope)
    have free : s.get? (.numbered k) name = none := by
      have unbound := List.find?_eq_none.mp absent _ member
      rw [← Bindings.get?_isSome] at unbound
      exact Option.not_isSome_iff_eq_none.mp unbound
    rcases h.fresh k held name free (by rw [get?, Bindings.get?_isSome]; exact bound) with ⟨wrong, -⟩ | rfl
    · cases wrong
    · exact absurd (newer _ member) (Nat.not_lt_zero _)
  obtain ⟨v, kept⟩ := h.kinds j (L.mem_chain_of_mem_scope (by rw [scope]; exact among)) name old bound
  refine ⟨j, v, ?_, kept⟩
  rw [State.lookupFrame?, scope', scope, split, List.find?_append, absent', Option.none_or, State.scopeOf,
    List.find?_cons_of_pos]
  rw [← Bindings.get?_isSome]
  exact Option.isSome_iff_exists.mpr ⟨_, kept⟩

end State.Keeps

/-! ## Values that fit -/

/-- Whatever is bound or remembered fits its kind, but for functions, which are bound under
    kinds of their own; and no initialiser that was put off declares anything. -/
structure State.Fitted (kinds : String → Kind) (s : State) : Prop where
  bound (n : Nat) : ∀ b ∈ (s.frame (.numbered n)).bindings, b.2.value.Plain →
    b.2.value.type = .function ∨ b.2.value.Fits b.2.kind
  memos (t : ThunkRef) (e : Node) (k : Kind) (v : Value) : (s.memory.thunk t).expression = e.castTo k →
    (s.memory.thunk t).phase = .forced v → v.Fits k
  functions (name : String) (k : Kind) (c : Closure) : s.get? .global name = some ⟨k, .closure c⟩ → k = kinds name
  initials (t : ThunkRef) : t.index < s.memory.thunks.size → (s.memory.thunk t).expression.introduces = false

namespace State.Fitted
variable {kinds : String → Kind} {s s' : State}

/-- The bindings of frames change. -/
theorem reframe (h : s.Fitted kinds) (memory : s'.memory = s.memory)
    (bound : ∀ n, ∀ b ∈ (s'.frame (.numbered n)).bindings, b ∈ (s.frame (.numbered n)).bindings ∨
      (b.2.value.Plain → b.2.value.type = .function ∨ b.2.value.Fits b.2.kind))
    (functions : ∀ name k c, s'.get? .global name = some ⟨k, .closure c⟩ →
      s.get? .global name = some ⟨k, .closure c⟩ ∨ k = kinds name) : s'.Fitted kinds where
  bound n b member := (bound n b member).elim (h.bound n b) id
  memos := by rw [memory]; exact h.memos
  functions name k c found := (functions name k c found).elim (h.functions name k c) id
  initials := by rw [memory]; exact h.initials

theorem still (h : s.Fitted kinds) (memory : s'.memory = s.memory) (frames : s'.frames = s.frames) : s'.Fitted kinds := by
  have same (n : Nat) : s'.frame (.numbered n) = s.frame (.numbered n) := by simp only [frame, frames]
  refine h.reframe memory (fun n b member => .inl (by rwa [same] at member)) fun name k c found => .inl ?_
  rwa [get?, FrameRef.global, same] at found

/-- Thunks change. -/
theorem remember (h : s.Fitted kinds) (frames : s'.frames = s.frames)
    (memos : ∀ (t : ThunkRef) (e : Node) k v, (s'.memory.thunk t).expression = e.castTo k → (s'.memory.thunk t).phase = .forced v → v.Fits k)
    (initials : ∀ t : ThunkRef, t.index < s'.memory.thunks.size → (s'.memory.thunk t).expression.introduces = false) :
    s'.Fitted kinds := by
  have same (n : Nat) : s'.frame (.numbered n) = s.frame (.numbered n) := by simp only [frame, frames]
  refine ⟨fun n b member => h.bound n b (by rwa [same] at member), memos, fun name k c found => h.functions name k c ?_, initials⟩
  rwa [get?, FrameRef.global, same] at found

/-- A name is bound to what fits, or to a function under its own kind. -/
theorem bind (h : s.Fitted kinds) {m : Nat} {name : String} {kind : Kind} {v : Value}
    (fits : v.Plain → v.type = .function ∨ v.Fits kind) (own : ∀ c, v = .closure c → kind = kinds name) :
    (s.bind (.numbered m) name ⟨kind, v⟩).Fitted kinds := by
  refine h.reframe (by simp) (fun n b member => ?_) fun x k c found => ?_
  · unfold State.bind at member
    rw [frame_modifyBindings] at member
    split at member
    · rcases Bindings.mem_insert member with old | new
      · exact .inl old
      · exact .inr (by rw [new]; exact fits)
    · exact .inl member
  · rw [get?_bind] at found
    split at found
    · rename_i here
      cases found
      exact .inr (here.2.2 ▸ own c rfl)
    · exact .inl found

theorem store (h : s.Fitted kinds) {name : String} {v : Value}
    (fits : ∀ n old, s.lookupFrame? name = some (.numbered n) → s.get? (.numbered n) name = some old → v.Fits old.kind) :
    (s.store name v).Fitted kinds := by
  refine h.reframe (by simp) (fun n b member => ?_) fun x k c found => ?_
  · unfold State.store at member
    split at member
    · rename_i r located
      cases r with
      | detached k => exact .inl member
      | numbered m =>
        rw [frame_modifyBindings] at member
        split at member
        · rename_i here
          obtain ⟨rfl, -⟩ := here
          rcases Bindings.mem_update_get? member with old | ⟨old, found, same⟩
          · exact .inl old
          · exact .inr fun _ => .inr (by rw [same]; exact fits n old located found)
        · exact .inl member
    · exact .inl member
  · rw [FrameRef.global, get?_store] at found
    split at found
    · rename_i here
      obtain ⟨old, before, same⟩ := Option.map_eq_some_iff.mp found
      cases same
      exact absurd (fits 0 old here.1 (here.2.2 ▸ before) none) (by simp [Value.cast])
    · exact .inl found

theorem pushInside (h : s.Fitted kinds) (tag : FrameTag) (parent : FrameRef) : (s.pushInside tag parent).2.Fitted kinds := by
  refine h.reframe rfl (fun n b member => .inl ?_) fun name k c found => .inl ?_
  · rw [frame_pushInside] at member
    split at member
    · cases member
    · exact member
  · rw [get?, FrameRef.global, frame_pushInside] at found
    split at found
    · cases found
    · exact found

theorem dropTop (h : s.Fitted kinds) : s.dropTop.Fitted kinds := by
  refine h.reframe s.dropTop_memory (fun _ _ member => .inl (mem_of_dropTop member)) fun name k c found => .inl ?_
  rwa [get?, global_dropTop] at found

theorem newThunk (h : s.Fitted kinds) {e : Node} (silent : e.introduces = false) (home : FrameRef) :
    State.Fitted kinds { s with memory := (s.memory.newThunk e home).2 } := by
  refine h.remember rfl (fun t e' k v delayed forced => ?_) fun t inside => ?_
  · have old := Memory.thunk_newThunk_of_forced forced
    dsimp only at delayed forced
    rw [old] at delayed forced
    exact h.memos t e' k v delayed forced
  · dsimp only at inside ⊢
    rcases Memory.thunk_newThunk_of_lt inside with ⟨before, old⟩ | ⟨-, new⟩
    · rw [old]
      exact h.initials t before
    · rwa [new]

theorem setPhase (h : s.Fitted kinds) (t : ThunkRef) (phase : Phase)
    (fits : ∀ (e : Node) k v, (s.memory.thunk t).expression = e.castTo k → phase = .forced v → v.Fits k) :
    (s.setPhase t phase).Fitted kinds := by
  refine h.remember rfl (fun q e k v delayed forced => ?_) fun q inside => ?_
  · unfold State.setPhase at delayed forced
    rw [Memory.thunk_setPhase] at delayed forced
    split at delayed
    · rename_i here
      rw [if_pos here] at forced
      exact fits e k v (here.1 ▸ delayed) forced
    · rename_i apart
      rw [if_neg apart] at forced
      exact h.memos q e k v delayed forced
  · unfold State.setPhase at inside ⊢
    rw [Memory.thunks_setPhase] at inside
    rw [Memory.thunk_setPhase]
    split
    · exact h.initials q inside
    · exact h.initials q inside

end State.Fitted

/-! ## Steady passages -/

section passages
variable {kinds : String → Kind} {settings : Settings} {b : Bool} {s s' : State} {past log : Log}

/-- A function never fits a kind. -/
theorem Value.not_fits_closure (c : Closure) (k : Kind) : ¬ (Value.closure c).Fits k := by
  intro fits
  have := fits none
  simp [cast] at this

theorem Act.fitted (action : Act (Form.steady kinds) settings b past s s') (L : s.Lexical) (h : s.Fitted kinds) :
    s'.Fitted kinds ∧ s.Keeps b s' := by
  obtain ⟨m, inside, top⟩ := L.top_inside
  cases action with
  | write text => exact ⟨h.still rfl rfl, .still fun _ _ => rfl⟩
  | newArray | newClosure => exact ⟨⟨h.bound, h.memos, h.functions, h.initials⟩, .still fun _ _ => rfl⟩
  | @delay _ _ _ declarators d initial kind put permitted among given code =>
    have steady := Declarator.steady_of_mem permitted among
    rw [Declarator.steady, given, Bool.and_eq_true] at steady
    have silent : (initial.castTo kind).introduces = false := by
      have given := steady.1
      rwa [Option.all_some, Bool.not_eq_true'] at given
    exact ⟨h.newThunk silent s.top, .still fun _ _ => rfl⟩
  | declare free settled fits =>
    rw [top] at free ⊢
    refine ⟨h.bind (fun _ => .inr fits) fun c same => ?_, .bind (.inl ⟨rfl, top.symm⟩) fun old found => ?_⟩
    · exact absurd (same ▸ fits) (Value.not_fits_closure c _)
    · cases free.symm.trans found
  | declareLazy free made fresh =>
    rw [top] at free ⊢
    refine ⟨h.bind nofun nofun, .bind (.inl ⟨rfl, top.symm⟩) fun old found => ?_⟩
    cases free.symm.trans found
  | @declareArray _ _ declarators d name kind elements permitted among sized declared free settled fits =>
    have steady := Declarator.steady_of_mem permitted among
    have arrayed : kind.pointerTo.isPointer = true := by
      rw [Declarator.steady, declared, Bool.and_eq_true, Bool.or_eq_true, decide_eq_true_eq] at steady
      exact (steady.2.resolve_left (by simp [Option.isSome_iff_ne_none.mp sized])).isPointer
    rw [top] at free ⊢
    have made : State.Fitted kinds { s with memory := (s.memory.newArray elements).2 } :=
      ⟨h.bound, h.memos, h.functions, h.initials⟩
    have same : s.Keeps true { s with memory := (s.memory.newArray elements).2 } := .still fun _ _ => rfl
    refine ⟨made.bind (fun _ => .inr (Value.fits_array arrayed _)) nofun, same.trans (.bind (.inl ⟨rfl, top.symm⟩) ?_) rfl⟩
    exact fun old found => nomatch free.symm.trans found
  | @declareFunction _ _ _ id params body name kind c permitted declared code replaces =>
    have own : kind = kinds name := by
      rw [Form.steady, declared] at permitted
      exact LawfulBEq.eq_of_beq permitted
    refine ⟨h.bind (fun _ => .inl rfl) fun _ _ => own, .bind (.inr (.inl rfl)) fun old found => ?_⟩
    rcases replaces with free | ⟨old', before, known⟩
    · cases free.symm.trans found
    · cases known.symm.trans found
      exact (h.functions name old' before known).trans own.symm

/-- Along a steady passage whatever is bound fits its kind. -/
theorem Passage.fitted (passage : Passage (Form.steady kinds) settings b past s log s')
    (proper : s.Proper (Form.steady kinds) past) (h : s.Fitted kinds) :
    s'.Fitted kinds ∧ (∀ entry ∈ log, entry.2.Fitted kinds) ∧ s.Keeps b s' := by
  induction passage with
  | nil => exact ⟨h, List.forall_mem_nil _, .still fun _ _ => rfl⟩
  | append first second ih ih' =>
    obtain ⟨fitted, all, keeps⟩ := ih proper h
    obtain ⟨fitted', all', keeps'⟩ := ih' (first.proper proper) fitted
    exact ⟨fitted', List.forall_mem_append.mpr ⟨all, all'⟩, keeps.trans keeps' first.control.1⟩
  | calm inner ih =>
    obtain ⟨fitted, all, keeps⟩ := ih proper h
    exact ⟨fitted, all, keeps.weaken nofun⟩
  | act action =>
    obtain ⟨fitted, keeps⟩ := action.fitted proper.lexical h
    exact ⟨fitted, List.forall_mem_nil _, keeps⟩
  | @visit _ _ s s₁ log n may inner ih =>
    have entered : (s.entering n).Fitted kinds := h.still rfl rfl
    obtain ⟨fitted, all, keeps⟩ := ih (proper.entering n) entered
    have left : (s₁.leaving n).Fitted kinds := fitted.still rfl rfl
    exact ⟨left, Log.forall_around.mpr ⟨entered, all, left⟩, keeps.kinds, keeps.fresh⟩
  | @frame _ c _ s s₁ log tag inner ih =>
    have pushed := proper.pushInside tag (.inl rfl)
    obtain ⟨fitted, all, keeps⟩ := ih pushed (h.pushInside tag s.top)
    exact ⟨fitted.dropTop, all, keeps.pushed tag s.top proper.lexical (inner.proper pushed).lexical rfl rfl inner.control.1 rfl⟩
  | @call _ c _ s s₁ log name may inner ih =>
    have called : (s.calling name).Fitted kinds := (h.pushInside (.call name) .global).still rfl rfl
    obtain ⟨fitted, all, keeps⟩ := ih (proper.calling name) called
    have L' := (inner.proper (proper.calling name)).lexical
    exact ⟨fitted.dropTop.still rfl rfl, all,
      keeps.pushed (.call name) .global proper.lexical L' rfl rfl inner.control.1 rfl⟩
  | @thunk _ _ s s₁ log t v waits seen inner settled fits ih =>
    have inside : t.index < s.memory.thunks.size := Memory.lt_of_phase fun v forced => nomatch waits.symm.trans forced
    have begun : (s.computing t).Fitted kinds := (h.setPhase t .forcing nofun).still rfl rfl
    have entered := proper.computing seen
    obtain ⟨fitted, all, keeps⟩ := ih entered begun
    rw [h.initials t inside] at keeps
    have kept : (s₁.dropTop.memory.thunk t).expression = (s.memory.thunk t).expression := by
      have leads := (State.leads_computing proper.lexical seen).trans (inner.leads entered).whole
      rw [State.dropTop_memory, leads.expressions t inside]
    refine ⟨fitted.dropTop.setPhase t (.forced v) fun e k w delayed same => ?_, all, ?_⟩
    · cases same
      exact fits e k (kept ▸ delayed)
    · exact keeps.reentered proper.lexical (inner.proper entered).lexical rfl rfl inner.control.1 rfl
  | @store b _ s s₁ log name span old v found inner between bound settled fits ih =>
    obtain ⟨fitted, all, keeps⟩ := ih proper h
    refine ⟨fitted.store fun n binding located bound => ?_, all, keeps.trans (.store s₁ name v) inner.control.1⟩
    rw [between.steady] at keeps
    obtain ⟨k, w, located', bound'⟩ := keeps.lookup proper.lexical (inner.leads proper).whole.toGrows inner.control.1 found
    cases located.symm.trans located'
    cases bound.symm.trans bound'
    exact fits
  | storeElement inner settled ih =>
    obtain ⟨fitted, all, keeps⟩ := ih proper h
    exact ⟨⟨fitted.bound, fitted.memos, fitted.functions, fitted.initials⟩, all, keeps.kinds, keeps.fresh⟩

theorem Broken.fitted (broken : Broken (Form.steady kinds) settings past s log s')
    (proper : s.Proper (Form.steady kinds) past) (h : s.Fitted kinds) : ∀ entry ∈ log, entry.2.Fitted kinds := by
  induction broken with
  | here | refused => exact List.forall_mem_nil _
  | after first second ih =>
    obtain ⟨fitted, all, -⟩ := first.fitted proper h
    exact List.forall_mem_append.mpr ⟨all, ih (first.proper proper) fitted⟩
  | visit n may inner ih =>
    have entered : (State.entering _ n).Fitted kinds := h.still rfl rfl
    exact List.forall_mem_cons.mpr ⟨entered, ih (proper.entering n) entered⟩
  | @frame _ s _ _ tag inner ih => exact ih (proper.pushInside tag (.inl rfl)) (h.pushInside tag s.top)
  | call name may inner ih => exact ih (proper.calling name) ((h.pushInside (.call name) .global).still rfl rfl)
  | @thunk _ s _ _ t waits seen inner ih =>
    have begun : (s.computing t).Fitted kinds := (h.setPhase t .forcing nofun).still rfl rfl
    exact ih (proper.computing seen) begun

/-- A state in which everything fits respects the kinds of all bindings. -/
theorem State.Fitted.respects {law : Form → Bool} (h : s.Fitted kinds) (proper : s.Proper law past) (n : Nat) :
    ∀ b ∈ (s.frame (.numbered n)).bindings, s.Respects b.2 := by
  intro b member
  cases same : b.2.value with
  | lazy t =>
    obtain ⟨e, delayed⟩ := (proper.bound n b member).delayed t same
    refine .inr (.inl ⟨t, e, same, delayed, fun v memo => ?_⟩)
    unfold Thunk.memo? at memo
    split at memo
    · rename_i forced
      cases memo
      exact h.memos t e _ v delayed forced
    · cases memo
  | _ =>
    have plain : b.2.value.Plain := by rw [same]; rfl
    exact (h.bound n b member plain).imp id fun fits => .inr ⟨plain, fits⟩

end passages

theorem State.fitted_beginEvaluation {kinds : String → Kind} {s : State} (h : s.Fitted kinds) : s.beginEvaluation.Fitted kinds := by
  refine h.reframe s.beginEvaluation_memory (fun _ _ member => .inl (mem_of_clearAll member)) fun name k c found => .inl ?_
  have same : s.beginEvaluation.frame .global = s.frame .global := (s.clearAll_frames s.stack).2.1
  rwa [get?, same] at found

theorem State.fitted_seeded (kinds : String → Kind) : State.seeded.Fitted kinds := by
  have empty : State.Fitted kinds {} := by
    refine ⟨fun n b member => ?_, fun t e k v delayed => ?_, fun name k c found => ?_, fun t inside => absurd inside (Nat.not_lt_zero _)⟩
    · cases n with
      | zero => cases member
      | succ n =>
        rw [frame_outside (Nat.succ_le_succ (Nat.zero_le n))] at member
        cases member
    · rw [Memory.thunk_of_le (Nat.zero_le _)] at delayed
      cases delayed
    · cases found
  have builtin {s : State} (h : s.Fitted kinds) (f : Builtin) : (s.bind .global f.name ⟨f.result, .builtin f⟩).Fitted kinds :=
    h.bind (fun _ => .inl rfl) (by rintro c ⟨⟩)
  have whole : Number.isWhole 0.0 = true := by decide +kernel
  have null : (Value.number 0.0).Fits (Kind.plain .void).pointerTo := fun span => by
    simp [Value.cast, Kind.isPointer, Kind.pointerTo, Kind.plain, whole]
  exact (builtin (builtin (builtin empty .print) .putchar) .abs).bind (fun _ => .inr null) (by rintro c ⟨⟩)

/-- At every suspension point of a run of a steady program every binding of the chain respects
    its kind. -/
theorem Program.kinds_respected (p : Program) (settings : Settings) (fuel : Nat) (kinds : String → Kind)
    (steady : ∀ n ∈ p.body, n.all (Form.steady kinds) = true) :
    ∀ s ∈ p.suspensions settings fuel, ∀ r ∈ s.chain, ∀ b ∈ (s.frame r).bindings, s.Respects b.2 := by
  intro s suspended r held b member
  obtain ⟨log, s', run, same⟩ := p.suspensions_pass (lenient_steady kinds) steady settings fuel
  rw [same] at suspended
  obtain ⟨entry, among, rfl⟩ := List.mem_map.mp suspended
  have start := State.proper_seeded (Form.steady kinds)
  obtain ⟨before, proper⟩ := run.proper_of_mem start entry among
  obtain ⟨n, -, rfl⟩ := proper.lexical.inside_of_mem proper.stacked r held
  have begun := State.fitted_beginEvaluation (State.fitted_seeded kinds)
  have fitted : entry.2.Fitted kinds := by
    cases run with
    | done passage => exact (passage.fitted start.beginEvaluation begun).2.1 entry among
    | stopped broken | failed e broken => exact broken.fitted start.beginEvaluation begun entry among
  exact fitted.respects proper n b member

/-- A whole number is left under the kind of whole numbers. -/
theorem Program.whole_under_int :
    let p : Program := ⟨[Tree.var "int" "x" (some (Tree.num 2.5)), Tree.expr (Tree.set "x" (Tree.num 3.5))], none⟩
    (∀ n ∈ p.body, n.all (Form.steady fun _ => .plain .int) = true) ∧
    ∀ s ∈ p.suspensions { strategy := .lazy } 20, ∀ r ∈ s.chain, ∀ b ∈ (s.frame r).bindings, s.Respects b.2 := by
  intro p
  have steady : ∀ n ∈ p.body, n.all (Form.steady fun _ => .plain .int) = true :=
    List.all_eq_true.mp (by decide +kernel)
  exact ⟨steady, Program.kinds_respected p { strategy := .lazy } 20 _ steady⟩

/-- A function that is declared again while its own name is assigned to leaves a fraction under
    the kind of whole numbers. -/
theorem Program.fraction_under_int :
    let p : Program := ⟨[Tree.func "double" "f" [] [Tree.returnValue (some (Tree.num 1.0))],
      Tree.func "int" "g" [] [Tree.func "int" "f" [] [Tree.returnValue (some (Tree.num 2.0))],
        Tree.returnValue (some (Tree.num 2.0))],
      Tree.expr (Tree.set "f" (Tree.bin .add (Tree.call "g" []) (Tree.num 0.5)))], none⟩
    ∃ s ∈ p.suspensions {} 20, ∃ r ∈ s.chain, ∃ b ∈ (s.frame r).bindings, ¬ s.Respects b.2 := by
  intro p
  have found : (p.suspensions {} 20).any (fun s => (s.frame .global).bindings.any fun b =>
      decide (b.2.kind = .plain .int) && b.2.value.hasBits 0x4004000000000000) = true := by decide +kernel
  obtain ⟨s, suspended, holds⟩ := List.any_eq_true.mp found
  obtain ⟨b, member, fraction⟩ := List.any_eq_true.mp holds
  refine ⟨s, suspended, .global, List.mem_append_right _ List.mem_cons_self, b, member, ?_⟩
  rw [Bool.and_eq_true, decide_eq_true_eq] at fraction
  obtain ⟨kind, bits⟩ := fraction
  have value := Value.eq_of_hasBits bits
  rintro (function | ⟨t, e, lazy, -⟩ | ⟨-, fits⟩)
  · rw [value] at function
    cases function
  · cases value.symm.trans lazy
  · rw [kind] at fits
    exact Value.not_fits_of_bits bits (by decide +kernel) (by decide +kernel) rfl fits

end MiniC
