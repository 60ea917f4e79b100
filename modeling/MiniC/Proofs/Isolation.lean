import MiniC.Proofs.Footing
import MiniC.Proofs.Runs

/-!
# Calls see nothing of their callers

A call gets a frame inside the global one, and names are looked up outwards from there. What
it can read and change is the global frame, the frames that are made since, the memory and
the output. The frames of its callers are out of reach: not even a thunk of theirs can come
to be computed (`Passage.since`). So states that differ in those frames alone are the same to
a call, and it leaves them as they are (`State.calls_isolated`).
-/

namespace MiniC
variable {σ τ : Type}

/-! ## Frames made since -/

/-- Whether a frame is the global one, or was made when there were so many already. -/
def FrameRef.isSince (base : Nat) : FrameRef → Bool
  | .numbered n => n = globalNumber ∨ base ≤ n
  | .detached _ => false

/-- Such frames lie inside each other and inside the global one. -/
def State.Encloses (s : State) (base : Nat) : Prop :=
  base ≤ s.frames.size ∧ ∀ r : FrameRef, r.isSince base = true → ∀ q ∈ (s.frame r).around, q.isSince base = true

theorem FrameRef.isSince_numbered {base n : Nat} : (numbered n).isSince base = true ↔ n = globalNumber ∨ base ≤ n :=
  decide_eq_true_iff

namespace State

theorem around_dropTop (s : State) (n : Nat) : (s.dropTop.frame (.numbered n)).around = (s.frame (.numbered n)).around := by
  unfold dropTop
  split
  · rfl
  · exact around_clearIfGone _ _ _ n

theorem around_store (s : State) (name : String) (v : Value) (n : Nat) :
    ((s.store name v).frame (.numbered n)).around = (s.frame (.numbered n)).around := by
  unfold store
  split
  · exact around_modifyBindings _ _ (.numbered n) _
  · rfl

@[simp] theorem frames_store (s : State) (name : String) (v : Value) : (s.store name v).frames.size = s.frames.size := by
  unfold store
  split
  · exact frames_modifyBindings _ _ _
  · rfl

namespace Encloses
variable {s s' : State} {base : Nat}

/-- Neither are frames made nor do they get others around them. -/
theorem still (h : s.Encloses base) (size : s'.frames.size = s.frames.size)
    (around : ∀ n, (s'.frame (.numbered n)).around = (s.frame (.numbered n)).around) : s'.Encloses base := by
  refine ⟨size ▸ h.1, fun r since => ?_⟩
  cases r with
  | detached k => cases since
  | numbered n =>
    rw [around]
    exact h.2 _ since

theorem scope (h : s.Encloses base) (top : s.top.isSince base = true) : ∀ r ∈ s.scope, r.isSince base = true :=
  List.forall_mem_cons.mpr ⟨top, h.2 s.top top⟩

theorem fresh (h : s.Encloses base) : (FrameRef.numbered s.frames.size).isSince base = true :=
  FrameRef.isSince_numbered.mpr (.inr h.1)

theorem pushInside (h : s.Encloses base) (tag : FrameTag) {parent : FrameRef} (since : parent.isSince base = true) :
    (s.pushInside tag parent).2.Encloses base := by
  refine ⟨?_, fun r since' => ?_⟩
  · simpa [State.pushInside] using Nat.le_succ_of_le h.1
  · cases r with
    | detached k => cases since'
    | numbered n =>
      rw [frame_pushInside]
      split
      · exact List.forall_mem_cons.mpr ⟨since, h.2 parent since⟩
      · exact h.2 _ since'

theorem calling (h : s.Encloses base) (name : String) : (s.calling name).Encloses base := by
  have pushed : (s.pushInside (.call name) .global).2.Encloses base := h.pushInside (.call name) rfl
  exact pushed.still rfl fun _ => rfl

theorem dropTop (h : s.Encloses base) : s.dropTop.Encloses base := h.still s.frames_dropTop s.around_dropTop

end Encloses
end State

section since
variable {law : Form → Bool} {settings : Settings} {b : Bool} {s s' : State} {past log : Log} {base : Nat}

theorem Act.encloses (action : Act law settings b past s s') (h : s.Encloses base) : s'.Encloses base := by
  cases action with
  | write | newArray | newClosure | delay => exact h.still rfl fun _ => rfl
  | declare | declareLazy | declareArray | declareFunction =>
    exact h.still (State.frames_modifyBindings _ _ _) fun n => State.around_modifyBindings _ _ (.numbered n) _

/-- A passage that starts in such a frame shows no event in any other. -/
theorem Passage.since (passage : Passage law settings b past s log s') (h : s.Encloses base)
    (top : s.top.isSince base = true) : (∀ entry ∈ log, entry.2.top.isSince base = true) ∧ s'.Encloses base := by
  induction passage with
  | nil => exact ⟨List.forall_mem_nil _, h⟩
  | append first second ih ih' =>
    obtain ⟨all, h'⟩ := ih h top
    obtain ⟨all', h''⟩ := ih' h' (first.top ▸ top)
    exact ⟨List.forall_mem_append.mpr ⟨all, all'⟩, h''⟩
  | calm inner ih => exact ih h top
  | act action => exact ⟨List.forall_mem_nil _, action.encloses h⟩
  | @visit _ _ s s₁ log n may inner ih =>
    obtain ⟨all, h'⟩ := ih (h.still rfl fun _ => rfl) top
    have last : (s₁.leaving n).top.isSince base = true := by
      rw [show (s₁.leaving n).top = (s.entering n).top from inner.top]
      exact top
    exact ⟨Log.forall_around.mpr ⟨top, all, last⟩, h'.still rfl fun _ => rfl⟩
  | frame tag inner ih =>
    obtain ⟨all, h'⟩ := ih (h.pushInside tag top) h.fresh
    exact ⟨all, h'.dropTop⟩
  | call name may inner ih =>
    obtain ⟨all, h'⟩ := ih (h.calling name) h.fresh
    exact ⟨all, h'.dropTop.still rfl fun _ => rfl⟩
  | thunk waits seen inner settled fits ih =>
    -- the home of the thunk is in the scope, and so it is none of those out of reach
    obtain ⟨all, h'⟩ := ih (h.still rfl fun _ => rfl) (h.scope top _ seen)
    exact ⟨all, h'.dropTop.still rfl fun _ => rfl⟩
  | store found inner between bound settled fits ih =>
    obtain ⟨all, h'⟩ := ih h top
    exact ⟨all, h'.still (State.frames_store _ _ _) (State.around_store _ _ _)⟩
  | storeElement inner settled ih =>
    obtain ⟨all, h'⟩ := ih h top
    exact ⟨all, h'.still rfl fun _ => rfl⟩

theorem Broken.since (broken : Broken law settings past s log s') (h : s.Encloses base) (top : s.top.isSince base = true) :
    ∀ entry ∈ log, entry.2.top.isSince base = true := by
  induction broken with
  | here | refused => exact List.forall_mem_nil _
  | after first second ih =>
    obtain ⟨all, h'⟩ := first.since h top
    exact List.forall_mem_append.mpr ⟨all, ih h' (first.top ▸ top)⟩
  | visit n may inner ih => exact List.forall_mem_cons.mpr ⟨top, ih (h.still rfl fun _ => rfl) top⟩
  | frame tag inner ih => exact ih (h.pushInside tag top) h.fresh
  | call name may inner ih => exact ih (h.calling name) h.fresh
  | thunk waits seen inner ih => exact ih (h.still rfl fun _ => rfl) (h.scope top _ seen)

end since

namespace Eval

/-! ## The body of a call -/

/-- An observer that goes on along a course sees its end. -/
theorem Course.EndsUnder.ends {α : Type} {c : Course α} {o : Observer σ} {w : σ} {found : Except Interrupt α × Machine σ}
    (h : c.EndsUnder o w found) (goes : (o.follow w c.log).2 = none) : found.1 = c.result ∧ found.2.state = c.state := by
  unfold Course.EndsUnder at h
  generalize o.follow w c.log = followed at goes h
  obtain ⟨w', halted⟩ := followed
  cases goes
  rw [h]
  exact ⟨rfl, rfl⟩

/-- The observer that halts where a frame is on top that is out of reach. -/
def guard (base : Nat) : Observer Unit := .haltingAt fun _ u => !u.top.isSince base

theorem near_of_guard {base : Nat} {w : Unit} {e : Event} {u : State} (goes : ((guard base).onStep w e u).2 = .proceed) :
    u.top.isSince base = true := by
  cases near : u.top.isSince base with
  | true => rfl
  | false => simp [guard, Observer.haltingAt, near] at goes

/-- An evaluation under any observer, made of constructs alone: whatever passes through these
    holds of it under any two observers. -/
def Uniform {α : Type} (settings : Settings) (x : (σ : Type) → Observer σ → Eval σ α) : Prop :=
  ∀ {σ τ : Type} (o : Observer σ) (o' : Observer τ) {R A : {α : Type} → Eval σ α → Eval τ α → Prop},
    Lockstep ⟨settings, o⟩ ⟨settings, o'⟩ (· = ·) R A → R (x σ o) (x τ o')

section uniform
variable {α : Type} {settings : Settings} {x : (σ : Type) → Observer σ → Eval σ α} (uniform : Uniform settings x)
include uniform

/-- An evaluation that sees nothing out of reach is not halted for that: it ends as it does
    under any observer that goes on. -/
theorem guarded {b : Bool} {P : Log → State → Prop} {Q : Log → State → α → Prop}
    (traces : Traces (fun _ => true) ⟨settings, .logging⟩ b P (x Log .logging) Q) {base : Nat} {s : State} {past : Log}
    (proper : s.Proper (fun _ => true) past) (allowed : P past s) (h : s.Encloses base) (top : s.top.isSince base = true)
    {o : Observer σ} (proceeds : o.Proceeds) (w : σ) :
    let ran := runOn (x σ o) ⟨s, w⟩
    let guarded := runOn (x Unit (guard base)) ⟨s, ()⟩
    ran.1 = guarded.1 ∧ ran.2.state = guarded.2.state := by
  intro ran guarded
  have replays {σ : Type} (o : Observer σ) := uniform o .logging (Replays.lockstep ⟨settings, o⟩) s
  obtain ⟨course, -, logged, ends⟩ := replays o
  obtain ⟨course', -, logged', ends'⟩ := replays (guard base)
  have same : course.result = course'.result ∧ course.state = course'.state := by
    have both := (logged []).symm.trans (logged' [])
    exact ⟨congrArg (·.1) both, congrArg (·.2.state) both⟩
  -- what is logged is part of a passage
  have near : ∀ entry ∈ course'.log, entry.2.top.isSince base = true := by
    have traced := traces past ⟨s, []⟩ proper allowed
    rw [logged' []] at traced
    have shown {log : Log} (watched : course'.log.reverse ++ [] = Observer.logging.shown [] log) : course'.log = log := by
      rw [Observer.logging, Observer.shown_recording] at watched
      simpa using watched
    generalize course'.result = result at traced
    cases result with
    | ok v =>
      obtain ⟨log, passage, watched, -⟩ := traced
      exact shown watched ▸ (passage.since h top).1
    | error i =>
      obtain ⟨log, broken, watched⟩ := traced
      exact shown watched ▸ broken.since h top
  obtain ⟨result, state⟩ := (ends w).ends (proceeds.follow w course.log)
  obtain ⟨result', state'⟩ := (ends' ()).ends <| by
    rw [guard, Observer.follow_haltingAt, List.find?_eq_none.mpr fun entry member => by simp [near entry member]]
    rfl
  exact ⟨result.trans (same.1.trans result'.symm), state.trans (same.2.trans state'.symm)⟩

/-- Nothing is halted by an observer that goes on. -/
theorem unhalted {o : Observer σ} (proceeds : o.Proceeds) (m : Machine σ) : (runOn (x σ o) m).1 ≠ .error .halted := by
  let F : Footing := ⟨settings, m.state, m.state, fun _ => True, True, False, fun _ => trivial, trivial, fun _ _ => trivial,
    trivial, rfl, fun _ _ _ => rfl, rfl⟩
  have guards : F.Guarded o := fun w e u => by
    rw [proceeds w e u]
    trivial
  have start : F.At [] [] m.state m.state :=
    ⟨⟨rfl, rfl, fun _ => rfl, rfl, rfl, Nat.le_refl _, fun _ _ => rfl, fun _ _ _ _ => trivial,
      fun _ far => absurd trivial far, rfl, rfl⟩, nofun, rfl, rfl, rfl, rfl⟩
  have ended := uniform o o (Follows.lockstep F guards proceeds) [] [] m m start
  intro halted
  generalize runOn _ m = outcome at ended halted
  cases ended with
  | ok h => cases halted
  | error h own => exact own (Except.error.inj halted)
  | halted may => exact may

end uniform

/-- On a footing that has near what is made since and allows for halts, an evaluation from one
    state does what it does from the other. -/
theorem Uniform.agrees {α : Type} {F : Footing} {x : (σ : Type) → Observer σ → Eval σ α} (uniform : Uniform F.settings x)
    {b : Bool} {P : Log → State → Prop} {Q : Log → State → α → Prop}
    (traces : Traces (fun _ => true) ⟨F.settings, .logging⟩ b P (x Log .logging) Q) {base : Nat}
    (near : ∀ r : FrameRef, r.isSince base = true → F.near r) (halts : F.halts) {s t : State} {past : Log}
    (proper : s.Proper (fun _ => true) past) (allowed : P past s) (h : s.Encloses base) (top : s.top.isSince base = true)
    (start : F.At [] [] s t) {o : Observer σ} (proceeds : o.Proceeds) {o' : Observer τ} (proceeds' : o'.Proceeds) (w : σ) (w' : τ) :
    let ran := runOn (x σ o) ⟨s, w⟩
    let ran' := runOn (x τ o') ⟨t, w'⟩
    ran.1 = ran'.1 ∧ F.Agree ran.2.state ran'.2.state ∧ ∀ a, ran.1 = .ok a → F.At [] [] ran.2.state ran'.2.state := by
  intro ran ran'
  have guards : F.Guarded (guard base) := by
    intro w e u
    split
    · rename_i goes
      exact near _ (near_of_guard goes)
    · exact halts
  have follows : F.Outcome [] [] (runOn (x Unit (guard base)) ⟨s, ()⟩) ran' :=
    uniform (guard base) o' (Follows.lockstep F guards proceeds') [] [] ⟨s, ()⟩ ⟨t, w'⟩ start
  obtain ⟨result, state⟩ := guarded uniform traces proper allowed h top proceeds w
  have own := unhalted uniform proceeds ⟨s, w⟩
  change ran.1 = _ at result
  change ran.2.state = _ at state
  change ran.1 ≠ _ at own
  rw [state, result]
  generalize runOn _ (⟨s, ()⟩ : Machine Unit) = guarded at follows result
  generalize ran' = ended at follows ⊢
  cases follows with
  | ok h => exact ⟨rfl, h.toAgree, fun _ _ => h⟩
  | error h => exact ⟨rfl, h, nofun⟩
  | halted => exact absurd result own

end Eval

/-! ## Callers -/

namespace State
variable {s t : State}

/-- States that agree in the global frame agree in all that are still to be made. -/
theorem global_since (s : State) : FrameRef.global.isSince s.frames.size = true := rfl

theorem Accords.frame_since (h : s.Accords t) {r : FrameRef} (near : r.isSince s.frames.size = true) : s.frame r = t.frame r := by
  cases r with
  | detached k => cases near
  | numbered n =>
    rcases FrameRef.isSince_numbered.mp near with rfl | outside
    · exact h.outermost
    · rw [frame_outside outside, frame_outside (h.size ▸ outside)]

/-- The frames that are there before a call are not seen by it, but for the global one. -/
theorem Lexical.not_isSince (h : s.Lexical) {q : FrameRef} (member : q ∈ s.chain) (inner : q ≠ .global) :
    ∃ n < s.frames.size, q = .numbered n ∧ q.isSince s.frames.size = false := by
  obtain ⟨n, inside, rfl⟩ := h.inside_of_mem h.stacked q member
  refine ⟨n, inside, rfl, ?_⟩
  rw [← Bool.not_eq_true, FrameRef.isSince_numbered]
  rintro (outermost | since)
  · exact inner (congrArg _ outermost)
  · exact Nat.not_le_of_lt inside since

theorem Lexical.encloses (h : s.Lexical) : s.Encloses s.frames.size := by
  refine ⟨Nat.le_refl _, fun r since => ?_⟩
  cases r with
  | detached k => cases since
  | numbered n =>
    rcases FrameRef.isSince_numbered.mp since with rfl | outside
    · rw [show (s.frame (.numbered globalNumber)).around = [] from h.outermost]
      exact List.forall_mem_nil _
    · rw [frame_outside outside]
      exact List.forall_mem_nil _

/-- Of the frames since, only its own is on the chain when a call begins. -/
theorem Lexical.any_calling (h : s.Lexical) (name : String) {r : FrameRef} (since : s.frames.size ≤ r.number) :
    (s.calling name).stack.any (·.number == r.number) = (s.frames.size == r.number) := by
  have below : s.stack.any (·.number == r.number) = false := by
    refine List.any_eq_false.mpr fun q member => ?_
    obtain ⟨k, inside, rfl⟩ := h.inside_of_mem h.stacked q (List.mem_append_left _ member)
    rw [beq_iff_eq]
    exact Nat.ne_of_lt (Nat.lt_of_lt_of_le inside since)
  exact (congrArg (_ || ·) below).trans (Bool.or_false _)

end State

namespace Eval

/-- The body of a call from two states that agree in all that it can see. -/
def callees (settings : Settings) {s t : State} (accords : s.Accords t) (depth : s.callDepth = t.callDepth)
    (L : s.Lexical) (L' : t.Lexical) (name : String) : Footing where
  settings := settings
  left := s.calling name
  right := t.calling name
  near r := r.isSince s.frames.size = true
  counts := True
  halts := True
  limited _ := trivial
  outermost := s.global_since
  fresh n made := FrameRef.isSince_numbered.mpr (.inr (Nat.le_trans (L.encloses.calling name).1 made))
  inside := L.encloses.fresh
  top := congrArg FrameRef.numbered accords.size
  held r near inner := by
    cases r with
    | detached k => cases near
    | numbered n =>
      have since := (FrameRef.isSince_numbered.mp near).resolve_left inner
      rw [L.any_calling name (r := .numbered n) since, L'.any_calling name (r := .numbered n) (accords.size ▸ since), accords.size]
  depth := congrArg (· + 1) depth

section callees
variable {settings : Settings} {s t : State} (accords : s.Accords t) (steps : s.steps = t.steps)
  (depth : s.callDepth = t.callDepth) (L : s.Lexical) (L' : t.Lexical)
include steps

/-- Both bodies begin alike. -/
theorem callees_at (whole : s.detached.size = t.detached.size) (name : String) :
    (callees settings accords depth L L' name).At [] [] (s.calling name) (t.calling name) := by
  have same (r : FrameRef) (near : r.isSince s.frames.size = true) : (s.calling name).frame r = (t.calling name).frame r := by
    cases r with
    | detached k => cases near
    | numbered n =>
      show (s.pushInside (.call name) .global).2.frame (.numbered n) = (t.pushInside (.call name) .global).2.frame (.numbered n)
      rw [State.frame_pushInside, State.frame_pushInside, accords.size, accords.outermost]
      split
      · rfl
      · exact accords.frame_since near
  have size (s : State) : (s.calling name).frames.size = s.frames.size + 1 := s.size_frames_pushInside (.call name) .global
  refine ⟨⟨accords.memory, accords.output, fun _ => steps, ?_, whole, Nat.le_refl _, same, ?_, fun _ _ => ⟨rfl, rfl⟩, rfl, rfl⟩,
    nofun, rfl, rfl, rfl, rfl⟩
  · rw [size, size, accords.size]
  · exact (L.encloses.calling name).2

end callees

/-- A call is refused for its arguments or its depth, or else its body is evaluated in it. -/
theorem runOn_callClosure (inner : Visitor σ) (limit : Nat) (name : String) (c : Closure) (kind : Kind)
    (arguments : List Value) (span : Option Span) (m : Machine σ) :
    runOn (inner.callClosure limit name c kind arguments span) m =
      if arguments.length ≠ c.params.length then
        (.error (.error (.arity name c.params.length arguments.length span)), m)
      else if limit ≤ m.state.callDepth then (.error (.error (.callDepth limit span)), m)
      else runOn (inCall name (inner.callBody c kind arguments span)) m := by
  unfold Visitor.callClosure
  by_cases unfit : arguments.length ≠ c.params.length
  · rw [if_pos unfit, if_pos unfit]
    rfl
  · rw [if_neg unfit, if_neg unfit]
    dsimp only
    rw [runOn_bind, runOn_checkDepth]
    by_cases deep : limit ≤ m.state.callDepth
    · rw [if_pos deep, if_pos deep]
    · rw [if_neg deep, if_neg deep]
      rfl

end Eval

/-- What a call does to two states: they agree afterwards, and the frames on the chain before
    it are as they were, but for the global one. -/
structure State.Isolated (s t s' t' : State) : Prop extends s'.Accords t' where
  steps : s'.steps = t'.steps
  callers : ∀ q ∈ s.chain, q ≠ .global → s'.frame q = s.frame q
  callers' : ∀ q ∈ t.chain, q ≠ .global → t'.frame q = t.frame q

namespace Eval

section isolated
variable {settings : Settings} {s t : State} {accords : s.Accords t} {depth : s.callDepth = t.callDepth} {L : s.Lexical}
  {L' : t.Lexical} {name : String}

/-- What the body of a call has left is apart from the frames of its callers. -/
theorem isolated_of_agree {s' t' : State} (h : (callees settings accords depth L L' name).Agree s' t') : s.Isolated t s' t' := by
  have others {u : State} (L : u.Lexical) {q : FrameRef} (member : q ∈ u.chain) (inner : q ≠ .global) :
      q.isSince u.frames.size = false ∧ (u.calling name).frame q = u.frame q := by
    obtain ⟨n, inside, rfl, since⟩ := L.not_isSince member inner
    exact ⟨since, State.frame_pushInside_of_lt (.call name) .global inside⟩
  refine ⟨h.accords, h.steps trivial, fun q member inner => ?_, fun q member inner => ?_⟩
  · obtain ⟨far, same⟩ := others L member inner
    exact (h.apart q (Bool.eq_false_iff.mp far)).1.trans same
  · obtain ⟨far, same⟩ := others L' member inner
    rw [← accords.size] at far
    exact (h.apart q (Bool.eq_false_iff.mp far)).2.trans same

end isolated

end Eval

namespace State

theorem Isolated.refl {s t : State} (accords : s.Accords t) (steps : s.steps = t.steps) : s.Isolated t s t :=
  ⟨accords, steps, fun _ _ _ => rfl, fun _ _ _ => rfl⟩

/-- When the calls are left, their own frames go. -/
theorem Isolated.leave {s t s' t' : State} (h : s.Isolated t s' t') (L : s.Lexical) (L' : t.Lexical)
    (stack : s'.stack = .numbered s.frames.size :: s.stack) (stack' : t'.stack = .numbered t.frames.size :: t.stack) :
    s.Isolated t s'.dropTop.popCall t'.dropTop.popCall := by
  have others {u u' : State} (L : u.Lexical) (stack : u'.stack = .numbered u.frames.size :: u.stack) {q : FrameRef}
      (member : q ∈ u.chain) (inner : q ≠ .global) : u'.dropTop.popCall.frame q = u'.frame q := by
    obtain ⟨n, inside, rfl, -⟩ := L.not_isSince member inner
    exact frame_dropTop stack (Nat.ne_of_lt inside)
  have accords := h.toAccords.dropTop
  refine ⟨⟨accords.memory, accords.outermost, accords.size, accords.output⟩, ?_, fun q member inner => ?_, fun q member inner => ?_⟩
  · exact s'.dropTop_steps.trans (h.steps.trans t'.dropTop_steps.symm)
  · exact (others L stack member inner).trans (h.callers q member inner)
  · exact (others L' stack' member inner).trans (h.callers' q member inner)

end State
namespace Eval

section call
variable (settings : Settings) (fuel : Nat) (c : Closure) (kind : Kind) (arguments : List Value) (span : Option Span)
variable {o : Observer σ} (proceeds : o.Proceeds) {o' : Observer τ} (proceeds' : o'.Proceeds) {s t : State} {past past' : Log}
  (proper : s.Proper (fun _ => true) past) (proper' : t.Proper (fun _ => true) past') (accords : s.Accords t)
  (steps : s.steps = t.steps) (depth : s.callDepth = t.callDepth) (whole : s.detached.size = t.detached.size)
  (settled : ∀ v ∈ arguments, v.Settled (fun _ => true) past)
include proceeds proceeds' proper proper' accords steps depth whole settled

/-- The body of a call does the same from both states. -/
theorem callBody_agrees (name : String) (w : σ) (w' : τ) :
    let F := callees settings accords depth proper.lexical proper'.lexical name
    let ran := runOn ((visitor ⟨settings, o⟩ fuel).callBody c kind arguments span) ⟨s.calling name, w⟩
    let ran' := runOn ((visitor ⟨settings, o'⟩ fuel).callBody c kind arguments span) ⟨t.calling name, w'⟩
    ran.1 = ran'.1 ∧ F.Agree ran.2.state ran'.2.state ∧ ∀ v, ran.1 = .ok v → F.At [] [] ran.2.state ran'.2.state := by
  have uniform : Uniform settings fun _ o => (visitor ⟨settings, o⟩ fuel).callBody c kind arguments span :=
    fun _ _ _ _ L => L.toCongruence.callBody (L.visitors (rfl : fuel = fuel)) c kind arguments span
  have V : TracesVisits (fun _ => true) ⟨settings, .logging⟩ (visitor ⟨settings, .logging⟩ fuel) := Traces.visit lenient_true fuel
  have traces := Traces.callBody V (c.body.all_of_forall fun _ => rfl) kind arguments span
  have enclosed := proper.lexical.encloses
  exact Uniform.agrees (F := callees settings accords depth proper.lexical proper'.lexical name) uniform traces (fun _ => id) trivial
    (proper.calling name) settled (enclosed.calling name) enclosed.fresh
    (callees_at accords steps depth proper.lexical proper'.lexical whole name) proceeds proceeds' w w'

/-- A call does the same from both states, and leaves what it does not see. -/
theorem callClosure_isolated (name : String) (w : σ) (w' : τ) :
    let ran := runOn ((visitor ⟨settings, o⟩ fuel).callClosure settings.maxCallDepth name c kind arguments span) ⟨s, w⟩
    let ran' := runOn ((visitor ⟨settings, o'⟩ fuel).callClosure settings.maxCallDepth name c kind arguments span) ⟨t, w'⟩
    ran.1 = ran'.1 ∧ s.Isolated t ran.2.state ran'.2.state := by
  dsimp only
  rw [runOn_callClosure, runOn_callClosure]
  dsimp only
  rw [← depth]
  split
  · exact ⟨rfl, .refl accords steps⟩
  split
  · exact ⟨rfl, .refl accords steps⟩
  obtain ⟨result, agree, at_end⟩ := callBody_agrees settings fuel c kind arguments span proceeds proceeds' proper proper' accords
    steps depth whole settled name w w'
  rw [runOn_inCall, runOn_inCall]
  unfold State.calling at result agree at_end
  dsimp only
  generalize runOn _ (⟨_, w⟩ : Machine σ) = ended at result agree at_end ⊢
  generalize runOn _ (⟨_, w'⟩ : Machine τ) = ended' at result agree at_end ⊢
  obtain ⟨⟨i⟩ | ⟨v⟩, m⟩ := ended
  · obtain ⟨_, m'⟩ := ended'
    cases result
    exact ⟨rfl, isolated_of_agree agree⟩
  · obtain ⟨_, m'⟩ := ended'
    cases result
    have h := at_end v rfl
    dsimp only
    rw [runOn_leaveCall_of_control h.stack rfl h.calls, runOn_leaveCall_of_control h.stack' rfl h.calls']
    exact ⟨rfl, (isolated_of_agree agree).leave proper.lexical proper'.lexical h.stack h.stack'⟩

end call
end Eval
namespace State

/-! ## States in which calls are made -/

/-- States in which calls are made: one that is seen while programs are run one after the other,
    or one in which an argument has been computed since. -/
inductive Reachable : State → Prop
  | seen {tasks : List Task} {s : State} (member : s ∈ seeded.history tasks) : Reachable s
  | computed {σ : Type} {ctx : Context σ} {fuel : Nat} {n : Node} {s : State} {w : σ} {v : Value} {m : Machine σ}
      (before : Reachable s) (ran : Eval.runOn ((Eval.visitor ctx fuel).actual n) ⟨s, w⟩ = (.ok v, m)) : Reachable m.state

/-- Such states are proper, and everything leads there along a relation that passages respect
    and the ends of runs do. -/
theorem Reachable.along {R : State → State → Prop} (respected : ∀ settings, Respected (fun _ => true) settings R)
    (begins : ∀ s : State, R s s.beginEvaluation) (recovers : ∀ (s : State) e, R s (s.recover e)) {s : State} (h : s.Reachable) :
    (∃ past, s.Proper (fun _ => true) past) ∧ R seeded s := by
  have start := proper_seeded fun _ => true
  have refl := (respected {}).refl
  induction h with
  | @seen tasks s member =>
    have code : Permitted (fun _ => true) tasks := fun t _ n _ => n.all_of_forall fun _ => rfl
    have onward := (start.history_along lenient_true code (fun t _ => respected t.settings) (refl _) (respected {}).trans
      begins recovers).1
    exact ⟨start.history lenient_true code s member, onward s member⟩
  | @computed σ ctx fuel n s w v m before ran ih =>
    obtain ⟨⟨past, h⟩, led⟩ := ih
    have V : Eval.TracesVisits (fun _ => true) ctx (Eval.visitor ctx fuel) := Eval.Traces.visit lenient_true fuel
    have done := Eval.Traces.actual (b := true) V (.inside (n.all_of_forall fun _ => rfl)) past ⟨s, w⟩ h trivial
    rw [ran] at done
    obtain ⟨log, passage, -, -⟩ := done
    exact ⟨⟨_, passage.proper h⟩, (respected {}).trans led (passage.along (respected _) h).whole⟩

theorem Reachable.proper {s : State} (h : s.Reachable) : (∃ past, s.Proper (fun _ => true) past) ∧ s.detached.size = 0 := by
  obtain ⟨proper, leads⟩ := h.along (fun _ => leads_respected) leads_beginEvaluation leads_recover
  exact ⟨proper, leads.detached⟩

theorem Reachable.of_run (task : Task) : (task.run seeded).2.Reachable :=
  have member : (task.run seeded).2 ∈ seeded.history [task] :=
    List.mem_cons_of_mem _ (List.mem_append_right _ (List.mem_singleton.mpr rfl))
  .seen member

/-- Calls are isolated. Take two states in which calls are made, that agree in the global frame,
    the memory, the output, the steps, the number of frames and the depth of calls, however
    their other frames differ, and any function with arguments that are no thunks. Where
    observers go on, its call ends the same way from both, and leaves states that agree in all
    this; and on neither side has a frame changed that was on the chain before, except for the
    global one. -/
theorem calls_isolated {s t : State} (reachable : s.Reachable) (reachable' : t.Reachable) (accords : s.Accords t)
    (steps : s.steps = t.steps) (depth : s.callDepth = t.callDepth) (settings : Settings) (fuel : Nat) (name : String)
    (c : Closure) (kind : Kind) (arguments : List Value) (forced : ∀ v ∈ arguments, v.Plain ∧ s.memory.Reaches v)
    (span : Option Span) {o : Observer σ} (proceeds : o.Proceeds) {o' : Observer τ} (proceeds' : o'.Proceeds) (w : σ) (w' : τ) :
    let ran := Eval.runOn ((Eval.visitor ⟨settings, o⟩ fuel).callClosure settings.maxCallDepth name c kind arguments span) ⟨s, w⟩
    let ran' := Eval.runOn ((Eval.visitor ⟨settings, o'⟩ fuel).callClosure settings.maxCallDepth name c kind arguments span)
      ⟨t, w'⟩
    ran.1 = ran'.1 ∧ s.Isolated t ran.2.state ran'.2.state := by
  obtain ⟨⟨past, proper⟩, none⟩ := reachable.proper
  obtain ⟨⟨past', proper'⟩, none'⟩ := reachable'.proper
  -- an event that shows the state also shows the arrays among the arguments
  have shown : s.Proper (fun _ => true) (past ++ [(.enter c.body.summary, s)]) :=
    proper.announce (List.forall_mem_singleton.mpr (Nat.le_refl _))
  have settled (v : Value) (member : v ∈ arguments) :
      v.Settled (fun _ => true) (past ++ [(.enter c.body.summary, s)]) := by
    obtain ⟨plain, reached⟩ := forced v member
    exact ⟨plain, fun f _ => f.body.all_of_forall fun _ => rfl, fun r same =>
      ⟨_, List.mem_append_right _ List.mem_cons_self, reached r same⟩⟩
  exact Eval.callClosure_isolated settings fuel c kind arguments span proceeds proceeds' shown proper' accords steps depth
    (none.trans none'.symm) settled name w w'

/-- A function that returns `a` does not find it where its caller has bound it, nor where its
    caller has bound another name instead. -/
theorem call_without_locals :
    let c : Closure := ⟨0, some "f", [], Tree.block [Tree.returnValue (some (Tree.ident "a"))]⟩
    let caller (name : String) : Task :=
      ⟨{}, .haltingAt fun _ s => s.steps == 5, (), 20, ⟨[Tree.block [Tree.var "bool" name none, Tree.bool true]], none⟩⟩
    let s := ((caller "a").run seeded).2
    let t := ((caller "b").run seeded).2
    let settings : Settings := {}
    let ran (u : State) :=
      Eval.runOn ((Eval.visitor ⟨settings, (Observer.silent : Observer Unit)⟩ 20).callClosure settings.maxCallDepth "f" c
        (.plain .bool) [] none) ⟨u, ()⟩
    (s.get? (.numbered 1) "a").isSome = true ∧ (t.get? (.numbered 1) "a").isSome = false ∧ s.Accords t ∧
      (ran s).1.isOk = false ∧ (ran s).1 = (ran t).1 ∧
      (ran s).2.state.frame (.numbered 1) = s.frame (.numbered 1) := by
  intro c caller s t settings ran
  have left (name : String) (among : name = "a" ∨ name = "b") (u : State) (after : u = ((caller name).run seeded).2) :
      u.Reachable ∧ u.memory = seeded.memory ∧ u.frame .global = seeded.frame .global ∧ u.frames.size = 2 ∧
        u.output = "" ∧ u.steps = 5 ∧ u.callDepth = 0 := by
    refine ⟨after ▸ .of_run _, ?_⟩
    rw [after, (caller name).run_state seeded]
    dsimp only [caller]
    rcases among with rfl | rfl
    · exact ⟨rfl, rfl, rfl, rfl, rfl, rfl⟩
    · exact ⟨rfl, rfl, rfl, rfl, rfl, rfl⟩
  obtain ⟨reachable, memory, outermost, size, output, steps, depth⟩ := left "a" (.inl rfl) s rfl
  obtain ⟨reachable', memory', outermost', size', output', steps', depth'⟩ := left "b" (.inr rfl) t rfl
  have bound : (s.get? (.numbered 1) "a").isSome = true := by decide +kernel
  have unbound : (t.get? (.numbered 1) "a").isSome = false := by decide +kernel
  have among : FrameRef.numbered 1 ∈ s.chain := by decide +kernel
  have fails : (ran s).1.isOk = false := by decide +kernel
  -- the states are evaluated above, and stay names from here on
  clear_value s t
  have accords : s.Accords t := ⟨memory.trans memory'.symm, outermost.trans outermost'.symm, size.trans size'.symm,
    output.trans output'.symm⟩
  have proceeds : (Observer.silent : Observer Unit).Proceeds := fun _ _ _ => rfl
  obtain ⟨same, isolated⟩ := calls_isolated reachable reachable' accords (steps.trans steps'.symm) (depth.trans depth'.symm)
    settings 20 "f" c (.plain .bool) [] (List.forall_mem_nil _) none proceeds proceeds () ()
  exact ⟨bound, unbound, accords, fails, same, isolated.callers _ among (by decide)⟩

end State
end MiniC
