import MiniC.Proofs.Outcome

/-!
# Lexical states

What a frame lies inside was on the stack when the frame was pushed; a call sees the
global frame alone; and only a frame of the scope is re-entered, since a thunk is bound
in the frame it is to be computed in. So whatever names are looked up in is on the chain
(`mem_chain_of_mem_scope`), and the nearest frame of the chain that binds a name is the
one that is found, unless it is hidden from the scope (`Lexical.find?_scope`).
-/

namespace MiniC

/-- Not a thunk. -/
def Value.Plain (v : Value) : Prop := v.isLazy = false

namespace State

/-- The frames in which names are looked up from a frame. -/
def scopeOf (s : State) (r : FrameRef) : List FrameRef := r :: (s.frame r).around

/-- If a value is a thunk, it is to be computed in that frame. -/
def Own (s : State) (r : FrameRef) (v : Value) : Prop :=
  ∀ t, v = .lazy t → t.index < s.memory.thunks.size ∧ (s.memory.thunk t).home = r

/-- If a value is a thunk, it is to be computed in a frame of the scope. -/
def Held (s : State) (v : Value) : Prop := ∃ r ∈ s.scope, s.Own r v

/-- Stacks that come about when frames are pushed, calls are entered and frames of the
    scope are re-entered. -/
inductive Stacked (s : State) : List FrameRef → Prop
  | base : Stacked s []
  | push {n : Nat} {rest : List FrameRef} (inside : n < s.frames.size) (below : Stacked s rest)
      (around : (s.frame (.numbered n)).around = s.scopeOf (rest.headD .global)) : Stacked s (.numbered n :: rest)
  | call {n : Nat} {rest : List FrameRef} (inside : n < s.frames.size) (below : Stacked s rest)
      (around : (s.frame (.numbered n)).around = [.global]) : Stacked s (.numbered n :: rest)
  | reenter {n : Nat} {rest : List FrameRef} (inside : n < s.frames.size) (below : Stacked s rest)
      (seen : .numbered n ∈ s.scopeOf (rest.headD .global)) : Stacked s (.numbered n :: rest)

/-- The invariant of evaluations: frames lie inside older ones, the stack is one that
    can come about, thunks are bound in their own frames, and nothing else holds them. -/
structure Lexical (s : State) : Prop where
  nonempty : 0 < s.frames.size
  outermost : (s.frame .global).around = []
  inside (n : Nat) : 0 < n → n < s.frames.size → ∃ k < n, (s.frame (.numbered n)).around = s.scopeOf (.numbered k)
  stacked : s.Stacked s.stack
  bindings (n : Nat) : ∀ b ∈ (s.frame (.numbered n)).bindings, s.Own (.numbered n) b.2.value
  arrays (r : ArrayRef) : ∀ v ∈ s.memory.elements r, v.Plain
  memos (t : ThunkRef) (v : Value) : (s.memory.thunk t).phase = .forced v → v.Plain

end State

/-! ## Plain values -/

namespace Value

theorem Plain.own {v : Value} (h : v.Plain) (s : State) (r : FrameRef) : s.Own r v := by
  rintro t rfl
  cases h

theorem Plain.held {v : Value} (h : v.Plain) (s : State) : s.Held v := ⟨s.top, List.mem_cons_self, h.own s s.top⟩

theorem plain_of_ne {v : Value} (h : ∀ t, v ≠ .lazy t) : v.Plain := by
  cases v with
  | lazy t => exact absurd rfl (h t)
  | _ => rfl

/-- A cast yields no thunk. -/
theorem plain_cast {v w : Value} {k : Kind} {span : Option Span} (h : v.cast k span = .ok w) : w.Plain := by
  refine plain_of_ne fun t same => ?_
  subst same
  unfold cast at h
  cases v <;> simp only at h <;> split at h <;> first | cases h | (split at h <;> cases h)

end Value

namespace State

/-! ## Scopes -/

theorem frame_outside {s : State} {n : Nat} (outside : s.frames.size ≤ n) : s.frame (.numbered n) = default := by
  simp [frame, Array.getD_eq_getD_getElem?, Array.getElem?_eq_none outside]

/-- What is found first behind an item is found first behind it in another list too, if
    it is among that list. -/
theorem find?_cons_of_mem {p : FrameRef → Bool} {q b : FrameRef} {xs ys : List FrameRef}
    (nearest : (q :: xs).find? p = some b) (seen : b ∈ q :: ys)
    (rest : xs.find? p = some b → b ∈ ys → ys.find? p = some b) : (q :: ys).find? p = some b := by
  rw [List.find?_cons] at nearest ⊢
  cases holds : p q with
  | true => rwa [holds] at nearest
  | false =>
    rw [holds] at nearest
    rcases List.mem_cons.mp seen with rfl | seen
    · rw [List.find?_some nearest] at holds
      cases holds
    · exact rest nearest seen

namespace Lexical
variable {s : State} (L : s.Lexical)
include L

theorem scopeOf_global : s.scopeOf .global = [.global] := by rw [scopeOf, L.outermost]

/-- A scope goes on outwards from each of its frames, through older and older ones. -/
theorem scopeOf_split : ∀ {n : Nat} {r : FrameRef}, n < s.frames.size → r ∈ s.scopeOf (.numbered n) →
    ∃ inner, s.scopeOf (.numbered n) = inner ++ s.scopeOf r ∧ r.number ≤ n ∧ r = .numbered r.number ∧
      ∀ q ∈ inner, r.number < q.number := by
  intro n
  induction n using Nat.strongRecOn with
  | _ n ih =>
    intro r small member
    rcases List.mem_cons.mp member with rfl | around
    · exact ⟨[], rfl, Nat.le_refl n, rfl, nofun⟩
    · rcases Nat.eq_zero_or_pos n with rfl | positive
      · rw [show (s.frame (.numbered 0)).around = [] from L.outermost] at around
        cases around
      · obtain ⟨k, older, parent⟩ := L.inside n positive small
        rw [parent] at around
        obtain ⟨inner, split, le, numbered, newer⟩ := ih k older (Nat.lt_trans older small) around
        refine ⟨.numbered n :: inner, ?_, by omega, numbered, ?_⟩
        · rw [scopeOf, parent, split]
          rfl
        · intro q hq
          rcases List.mem_cons.mp hq with rfl | hq
          · show r.number < n
            omega
          · exact newer q hq

theorem head_inside {stack : List FrameRef} (stacked : s.Stacked stack) :
    ∃ n < s.frames.size, stack.headD .global = .numbered n := by
  cases stacked with
  | base => exact ⟨0, L.nonempty, rfl⟩
  | push inside _ _ => exact ⟨_, inside, rfl⟩
  | call inside _ _ => exact ⟨_, inside, rfl⟩
  | reenter inside _ _ => exact ⟨_, inside, rfl⟩

/-- The frames of a stack exist, as the global one does. -/
theorem inside_of_mem {stack : List FrameRef} (stacked : s.Stacked stack) :
    ∀ q ∈ stack ++ [FrameRef.global], ∃ n < s.frames.size, q = .numbered n := by
  have extended {n : Nat} {rest : List FrameRef} (inside : n < s.frames.size)
      (ih : ∀ q ∈ rest ++ [FrameRef.global], ∃ n < s.frames.size, q = .numbered n) :
      ∀ q ∈ FrameRef.numbered n :: rest ++ [FrameRef.global], ∃ n < s.frames.size, q = .numbered n := by
    intro q hq
    rcases List.mem_cons.mp hq with rfl | hq
    · exact ⟨n, inside, rfl⟩
    · exact ih q hq
  induction stacked with
  | base => exact fun q hq => ⟨0, L.nonempty, List.mem_singleton.mp hq⟩
  | push inside _ _ ih => exact extended inside ih
  | call inside _ _ ih => exact extended inside ih
  | reenter inside _ _ ih => exact extended inside ih

theorem top_inside : ∃ n < s.frames.size, s.top = .numbered n := L.head_inside L.stacked

theorem numbered_of_mem_scope {r : FrameRef} (member : r ∈ s.scope) :
    r.number < s.frames.size ∧ r = .numbered r.number := by
  obtain ⟨n, inside, top⟩ := L.head_inside L.stacked
  rw [show s.scope = s.scopeOf (.numbered n) by rw [← top]; rfl] at member
  obtain ⟨-, -, le, numbered, -⟩ := L.scopeOf_split inside member
  exact ⟨by omega, numbered⟩

/-- What lies around a frame is older than it. -/
theorem older {n : Nat} {r : FrameRef} (inside : n < s.frames.size) (member : r ∈ (s.frame (.numbered n)).around) :
    r.number < n ∧ r = .numbered r.number := by
  rcases Nat.eq_zero_or_pos n with rfl | positive
  · rw [show (s.frame (.numbered 0)).around = [] from L.outermost] at member
    cases member
  · obtain ⟨k, lt, parent⟩ := L.inside n positive inside
    rw [parent] at member
    obtain ⟨-, -, le, numbered, -⟩ := L.scopeOf_split (Nat.lt_trans lt inside) member
    exact ⟨by omega, numbered⟩

/-- No frame lies around itself. -/
theorem ne_of_mem_around {n : Nat} {r : FrameRef} (inside : n < s.frames.size)
    (member : r ∈ (s.frame (.numbered n)).around) : r ≠ .numbered n := by
  rintro rfl
  exact Nat.lt_irrefl n (L.older inside member).1

/-! ## Scopes and the chain -/

/-- A stack holds, or the global frame is, whatever lies around one of its frames. -/
theorem mem_of_mem_scopeOf {stack : List FrameRef} (stacked : s.Stacked stack) : ∀ q ∈ stack ++ [FrameRef.global],
    ∀ r ∈ s.scopeOf q, r ∈ stack ++ [FrameRef.global] := by
  have head (rest : List FrameRef) : rest.headD .global ∈ rest ++ [FrameRef.global] := by
    cases rest with
    | nil => exact List.mem_cons_self
    | cons q rest => exact List.mem_cons_self
  induction stacked with
  | base =>
    intro q hq r hr
    rw [List.mem_singleton.mp hq, L.scopeOf_global] at hr
    exact hr
  | @push n rest inside below around ih =>
    intro q hq r hr
    rcases List.mem_cons.mp hq with rfl | hq
    · change r ∈ .numbered n :: (s.frame (.numbered n)).around at hr
      rw [around] at hr
      rcases List.mem_cons.mp hr with rfl | hr
      · exact List.mem_cons_self
      · exact List.mem_cons_of_mem _ (ih _ (head rest) r hr)
    · exact List.mem_cons_of_mem _ (ih q hq r hr)
  | @call n rest inside below around ih =>
    intro q hq r hr
    rcases List.mem_cons.mp hq with rfl | hq
    · change r ∈ .numbered n :: (s.frame (.numbered n)).around at hr
      rw [around] at hr
      rcases List.mem_cons.mp hr with rfl | hr
      · exact List.mem_cons_self
      · exact List.mem_append_right _ hr
    · exact List.mem_cons_of_mem _ (ih q hq r hr)
  | @reenter n rest inside below seen ih =>
    intro q hq r hr
    rcases List.mem_cons.mp hq with rfl | hq
    · obtain ⟨top, small, same⟩ := L.head_inside below
      rw [same] at seen
      obtain ⟨inner, split, -⟩ := L.scopeOf_split small seen
      exact List.mem_cons_of_mem _ (ih _ (head rest) r (by rw [same, split]; exact List.mem_append_right _ hr))
    · exact List.mem_cons_of_mem _ (ih q hq r hr)

/-- Whatever names are looked up in is on the chain. -/
theorem mem_chain_of_mem_scope {r : FrameRef} (member : r ∈ s.scope) : r ∈ s.chain := by
  refine L.mem_of_mem_scopeOf L.stacked s.top ?_ r member
  unfold State.top
  cases s.stack with
  | nil => exact List.mem_cons_self
  | cons q rest => exact List.mem_cons_self

/-- If the nearest frame of the chain with some property belongs to the scope, it is the
    nearest one of the scope as well. -/
theorem find?_scope {p : FrameRef → Bool} {b : FrameRef} (nearest : s.chain.find? p = some b) (seen : b ∈ s.scope) :
    s.scope.find? p = some b := by
  have along : ∀ stack, s.Stacked stack → ∀ b, (stack ++ [FrameRef.global]).find? p = some b →
      b ∈ s.scopeOf (stack.headD .global) → (s.scopeOf (stack.headD .global)).find? p = some b := by
    intro stack stacked
    induction stacked with
    | base =>
      intro b nearest seen
      rw [List.headD_nil, L.scopeOf_global]
      exact nearest
    | @push n rest inside below around ih =>
      intro b nearest seen
      change b ∈ .numbered n :: (s.frame (.numbered n)).around at seen
      change (.numbered n :: (s.frame (.numbered n)).around : List FrameRef).find? p = some b
      rw [around] at seen ⊢
      exact find?_cons_of_mem nearest seen (ih b)
    | @call n rest inside below around ih =>
      intro b nearest seen
      change b ∈ .numbered n :: (s.frame (.numbered n)).around at seen
      change (.numbered n :: (s.frame (.numbered n)).around : List FrameRef).find? p = some b
      rw [around] at seen ⊢
      refine find?_cons_of_mem nearest seen fun found only => ?_
      obtain rfl := List.mem_singleton.mp only
      rw [List.find?_cons, List.find?_some found]
    | @reenter n rest inside below seen ih =>
      intro b nearest member
      change b ∈ s.scopeOf (.numbered n) at member
      change (s.scopeOf (.numbered n)).find? p = some b
      rw [List.cons_append, List.find?_cons] at nearest
      cases holds : p (.numbered n) with
      | true =>
        rw [holds] at nearest
        rw [scopeOf, List.find?_cons, holds]
        exact nearest
      | false =>
        rw [holds] at nearest
        obtain ⟨top, small, head⟩ := L.head_inside below
        rw [head] at seen ih
        obtain ⟨inner, split, -, -, newer⟩ := L.scopeOf_split small seen
        have found := ih b nearest (split ▸ List.mem_append_right _ member)
        rw [split, List.find?_append] at found
        -- the frames inside the one that is re-entered are newer than all of its scope
        have none : inner.find? p = none := by
          rw [Option.eq_none_iff_forall_ne_some]
          intro q hq
          rw [hq, Option.some_or] at found
          obtain rfl := Option.some.inj found
          have := newer _ (List.mem_of_find?_eq_some hq)
          obtain ⟨-, -, le, -⟩ := L.scopeOf_split inside member
          exact absurd this (Nat.not_lt.mpr le)
        rwa [none, Option.none_or] at found
  exact along s.stack L.stacked b nearest seen

end Lexical

/-! ## Growing states -/

/-- Frames stay where they are, and thunks are to be computed where they were. -/
structure Grows (s s' : State) : Prop where
  frames : s.frames.size ≤ s'.frames.size
  around (n : Nat) : n < s.frames.size → (s'.frame (.numbered n)).around = (s.frame (.numbered n)).around
  thunks (t : ThunkRef) : t.index < s.memory.thunks.size →
    t.index < s'.memory.thunks.size ∧ (s'.memory.thunk t).home = (s.memory.thunk t).home

namespace Grows
variable {s s' s'' : State}

theorem trans (g : s.Grows s') (g' : s'.Grows s'') : s.Grows s'' where
  frames := Nat.le_trans g.frames g'.frames
  around n inside := (g'.around n (Nat.lt_of_lt_of_le inside g.frames)).trans (g.around n inside)
  thunks t inside :=
    have next := g.thunks t inside
    ⟨(g'.thunks t next.1).1, (g'.thunks t next.1).2.trans next.2⟩

theorem own (g : s.Grows s') {r : FrameRef} {v : Value} (h : s.Own r v) : s'.Own r v := by
  intro t same
  obtain ⟨inside, home⟩ := h t same
  exact ⟨(g.thunks t inside).1, (g.thunks t inside).2.trans home⟩

theorem scopeOf (g : s.Grows s') {n : Nat} (inside : n < s.frames.size) :
    s'.scopeOf (.numbered n) = s.scopeOf (.numbered n) := by
  rw [State.scopeOf, g.around n inside, State.scopeOf]

theorem stacked (g : s.Grows s') (L : s.Lexical) {stack : List FrameRef} (h : s.Stacked stack) : s'.Stacked stack := by
  induction h with
  | base => exact .base
  | push inside below around ih =>
    obtain ⟨top, small, head⟩ := L.head_inside below
    refine .push (Nat.lt_of_lt_of_le inside g.frames) ih ?_
    rw [g.around _ inside, around, head, g.scopeOf small]
  | call inside below around ih =>
    exact .call (Nat.lt_of_lt_of_le inside g.frames) ih ((g.around _ inside).trans around)
  | reenter inside below seen ih =>
    obtain ⟨top, small, head⟩ := L.head_inside below
    refine .reenter (Nat.lt_of_lt_of_le inside g.frames) ih ?_
    rw [head] at seen ⊢
    rwa [g.scopeOf small]

end Grows

namespace Stacked
variable {s : State} {stack : List FrameRef}

theorem tail (h : s.Stacked stack) : s.Stacked stack.tail := by
  cases h with
  | base => exact .base
  | push _ below _ => exact below
  | call _ below _ => exact below
  | reenter _ below _ => exact below

end Stacked

/-! ## Changes that keep states lexical -/

namespace Lexical
variable {s s' : State} (L : s.Lexical)
include L

/-- Only the stack changes, and what is not part of the invariant. -/
theorem restack (frames : s'.frames = s.frames) (memory : s'.memory = s.memory) (stacked : s.Stacked s'.stack) :
    s'.Lexical := by
  have same (n : Nat) : s'.frame (.numbered n) = s.frame (.numbered n) := by simp only [frame, frames]
  have grows : s.Grows s' := ⟨Nat.le_of_eq (by rw [frames]), fun n _ => by rw [same], fun t h => by rw [memory]; exact ⟨h, rfl⟩⟩
  refine ⟨by rw [frames]; exact L.nonempty, ?_, ?_, grows.stacked L stacked, ?_, ?_, ?_⟩
  · exact (congrArg Frame.around (same 0)).trans L.outermost
  · intro n positive inside
    rw [frames] at inside
    obtain ⟨k, older, around⟩ := L.inside n positive inside
    exact ⟨k, older, by rw [same, around, scopeOf, scopeOf, same]⟩
  · intro n b member
    rw [same] at member
    exact grows.own (L.bindings n b member)
  · rw [memory]
    exact L.arrays
  · rw [memory]
    exact L.memos

/-- Only the memory changes. -/
theorem remember (memory : Memory)
    (thunks : ∀ t : ThunkRef, t.index < s.memory.thunks.size →
      t.index < memory.thunks.size ∧ (memory.thunk t).home = (s.memory.thunk t).home)
    (arrays : ∀ r, ∀ v ∈ memory.elements r, v.Plain)
    (memos : ∀ t v, (memory.thunk t).phase = .forced v → v.Plain) : State.Lexical { s with memory } := by
  have grows : s.Grows { s with memory } := ⟨Nat.le_refl _, fun _ _ => rfl, thunks⟩
  exact ⟨L.nonempty, L.outermost, L.inside, grows.stacked L L.stacked,
    fun n b member => grows.own (L.bindings n b member), arrays, memos⟩

theorem newArray {elements : Array Value} (plain : ∀ v ∈ elements, v.Plain) :
    State.Lexical { s with memory := (s.memory.newArray elements).2 } := by
  refine L.remember _ (fun t h => ⟨h, rfl⟩) (fun r v member => ?_) L.memos
  rw [Memory.elements_newArray] at member
  split at member
  · exact plain v member
  · exact L.arrays r v member

theorem setElement {r : ArrayRef} {i : Nat} {w : Value} (plain : w.Plain) :
    State.Lexical { s with memory := s.memory.setElement r i w } := by
  refine L.remember _ (fun t h => ⟨h, rfl⟩) (fun q v member => ?_) L.memos
  rcases Memory.mem_elements_setElement member with old | rfl
  · exact L.arrays q v old
  · exact plain

/-- A thunk may be made for any frame. -/
theorem newThunk (n : Node) (home : FrameRef) :
    State.Lexical { s with memory := (s.memory.newThunk n home).2 } := by
  refine L.remember _ (fun t h => ?_) L.arrays (fun t v forced => ?_)
  · rw [Memory.thunk_newThunk n home h, Memory.thunks_newThunk]
    exact ⟨Nat.lt_succ_of_lt h, rfl⟩
  · rw [Memory.thunk_newThunk_of_forced forced] at forced
    exact L.memos t v forced

theorem setPhase {t : ThunkRef} {phase : Phase} (plain : ∀ v, phase = .forced v → v.Plain) :
    (s.setPhase t phase).Lexical := by
  refine L.remember _ (fun q h => ?_) L.arrays (fun q v forced => ?_)
  · rw [Memory.thunks_setPhase, Memory.thunk_setPhase]
    refine ⟨h, ?_⟩
    split
    · rfl
    · rfl
  · rw [Memory.thunk_setPhase] at forced
    split at forced
    · exact plain v forced
    · exact L.memos q v forced

/-- The bindings of a frame change. Thunks among them have to be its own. -/
theorem modifyBindings {n : Nat} {f : Bindings → Bindings}
    (own : ∀ b ∈ f (s.frame (.numbered n)).bindings, s.Own (.numbered n) b.2.value) :
    (s.modifyBindings (.numbered n) f).Lexical := by
  have grows : s.Grows (s.modifyBindings (.numbered n) f) :=
    ⟨Nat.le_of_eq (by simp), fun k _ => by simp, fun t h => by simp [h]⟩
  refine ⟨by simpa using L.nonempty, ?_, ?_, ?_, ?_, ?_, ?_⟩
  · exact (around_modifyBindings s _ .global f).trans L.outermost
  · intro k positive inside
    rw [frames_modifyBindings] at inside
    obtain ⟨j, older, around⟩ := L.inside k positive inside
    exact ⟨j, older, by rw [around_modifyBindings, around, scopeOf, scopeOf, around_modifyBindings]⟩
  · rw [modifyBindings_stack]
    exact grows.stacked L L.stacked
  · intro k b member
    rw [frame_modifyBindings] at member
    split at member
    · rename_i same
      obtain ⟨rfl, -⟩ := same
      exact grows.own (own b member)
    · exact grows.own (L.bindings k b member)
  · simpa using L.arrays
  · simpa using L.memos

/-- A name is bound in a frame to what may be bound there. -/
theorem bind {n : Nat} {name : String} {b : Binding} (own : s.Own (.numbered n) b.value) :
    (s.bind (.numbered n) name b).Lexical := by
  refine L.modifyBindings fun item member => ?_
  rcases Bindings.mem_insert member with old | new
  · exact L.bindings n item old
  · rw [new]
    exact own

/-- A frame is pushed inside the one on top, or inside the global one. -/
theorem pushInside (tag : FrameTag) {parent : FrameRef} (allowed : parent = s.top ∨ parent = .global) :
    (s.pushInside tag parent).2.Lexical := by
  obtain ⟨n, small, top⟩ := L.head_inside L.stacked
  have older (k : Nat) (inside : k < s.frames.size) := frame_pushInside_of_lt tag parent inside
  have pushed := s.frame_pushInside_self tag parent
  have size := s.size_frames_pushInside tag parent
  have grows : s.Grows (s.pushInside tag parent).2 :=
    ⟨by omega, fun k inside => by rw [older k inside], fun t h => ⟨h, rfl⟩⟩
  obtain ⟨k, inside, rfl⟩ : ∃ k < s.frames.size, parent = .numbered k := by
    rcases allowed with rfl | rfl
    · exact ⟨n, small, top⟩
    · exact ⟨0, L.nonempty, rfl⟩
  have around : ((s.pushInside tag (.numbered k)).2.frame (.numbered s.frames.size)).around = s.scopeOf (.numbered k) := by
    rw [pushed, scopeOf]
  refine ⟨by omega, ?_, ?_, ?_, ?_, L.arrays, L.memos⟩
  · rw [show FrameRef.global = .numbered 0 from rfl, older 0 L.nonempty]
    exact L.outermost
  · intro j positive bound
    rcases Nat.lt_or_ge j s.frames.size with old | new
    · obtain ⟨i, lt, parent⟩ := L.inside j positive old
      exact ⟨i, lt, by rw [older j old, parent, grows.scopeOf (Nat.lt_trans lt old)]⟩
    · obtain rfl : j = s.frames.size := by omega
      exact ⟨k, inside, by rw [around, grows.scopeOf inside]⟩
  · show Stacked _ (.numbered s.frames.size :: s.stack)
    have below := grows.stacked L L.stacked
    have new : s.frames.size < (s.pushInside tag (.numbered k)).2.frames.size := by omega
    rcases allowed with same | same
    · refine .push new below ?_
      rw [around, show s.stack.headD .global = .numbered k from same.symm, grows.scopeOf inside]
    · refine .call new below ?_
      rw [around, same, L.scopeOf_global]
  · intro j b member
    rcases Nat.lt_trichotomy j s.frames.size with old | rfl | outside
    · rw [older j old] at member
      exact grows.own (L.bindings j b member)
    · rw [pushed] at member
      cases member
    · rw [frame_outside (by omega)] at member
      cases member

theorem clearIfGone (r : FrameRef) (rest : List FrameRef) : (s.clearIfGone r rest).Lexical := by
  unfold State.clearIfGone
  split
  · exact L
  · cases r with
    | numbered n => exact L.modifyBindings (by simp)
    | detached k => exact L.restack rfl rfl L.stacked

theorem dropTop : s.dropTop.Lexical := by
  have tail := L.stacked.tail
  unfold State.dropTop
  split
  · exact L
  · rename_i r rest same
    rw [same] at tail
    exact (L.restack rfl rfl tail : State.Lexical { s with stack := rest }).clearIfGone r rest

/-! ## Looking up -/

theorem plain_element (r : ArrayRef) (i : Nat) : (s.memory.element r i).Plain := by
  rw [Memory.element, Array.getD_eq_getD_getElem?]
  cases found : (s.memory.elements r)[i]? with
  | none => rfl
  | some v => exact L.arrays r v (Array.mem_of_getElem? found)

/-- What a name is bound to may be computed where the name is seen. -/
theorem held_lookup {name : String} {span : Option Span} {b : Binding} (found : s.lookup name span = .ok b) :
    s.Held b.value := by
  unfold State.lookup at found
  split at found
  · rename_i b' seen
    cases found
    obtain ⟨r, at_r, bound⟩ := Option.bind_eq_some_iff.mp seen
    have member := List.mem_of_find?_eq_some at_r
    obtain ⟨-, numbered⟩ := L.numbered_of_mem_scope member
    refine ⟨r, member, ?_⟩
    rw [numbered] at bound ⊢
    exact L.bindings _ _ (Bindings.mem_of_get? bound)
  · cases found

end Lexical

/-! ## The start -/

theorem lexical_empty : State.Lexical {} := by
  refine ⟨Nat.one_pos, rfl, fun n positive inside => ?_, .base, fun n b member => ?_, fun r v member => ?_,
    fun t v forced => ?_⟩
  · exact absurd inside (Nat.not_lt.mpr positive)
  · cases n with
    | zero => cases member
    | succ n =>
      rw [frame_outside (Nat.succ_le_succ (Nat.zero_le n))] at member
      cases member
  · simp [Memory.elements] at member
  · rw [Memory.thunk_of_le (Nat.zero_le _)] at forced
    cases forced
    rfl

end State

end MiniC
