import MiniC.Proofs.Confinement
import MiniC.Proofs.Trail

/-!
# Calls and the chain

A call has a frame on the chain and a record among the calls, and the two are pushed and
popped apart. The records can be read off the chain at every suspension point, also where a
thunk that is being computed has put the frame of a call on the chain once more
(`State.calls_mirrored`).
-/

namespace MiniC

namespace State

/-! ## The calls of a chain -/

/-- The records of the calls whose frames are on a chain. A frame that is there several times
    counts where it was pushed, which is the lowest place. -/
def callsOn (s : State) : List FrameRef → List CallBoundary
  | [] => []
  | r :: below =>
    match (s.frame r).tag with
    | .call f => if r ∈ below then s.callsOn below else ⟨f, (below.headD .global).number, r.number⟩ :: s.callsOn below
    | _ => s.callsOn below

theorem callsOn_plain {s : State} {r : FrameRef} (plain : ∀ f, (s.frame r).tag ≠ .call f) (below : List FrameRef) :
    s.callsOn (r :: below) = s.callsOn below := by
  rw [callsOn]
  split
  · rename_i f called
    exact absurd called (plain f)
  · rfl

theorem callsOn_call {s : State} {r : FrameRef} {f : String} (called : (s.frame r).tag = .call f) {below : List FrameRef}
    (fresh : r ∉ below) :
    s.callsOn (r :: below) = ⟨f, (below.headD .global).number, r.number⟩ :: s.callsOn below := by
  rw [callsOn, called]
  exact if_neg fresh

theorem callsOn_again {s : State} {r : FrameRef} {below : List FrameRef} (again : r ∈ below) :
    s.callsOn (r :: below) = s.callsOn below := by
  rw [callsOn]
  split
  · exact if_pos again
  · rfl

theorem callsOn_congr {s s' : State} {chain : List FrameRef} (same : ∀ r ∈ chain, (s'.frame r).tag = (s.frame r).tag) :
    s'.callsOn chain = s.callsOn chain := by
  induction chain with
  | nil => rfl
  | cons r below ih =>
    obtain ⟨first, others⟩ := List.forall_mem_cons.mp same
    rw [callsOn, callsOn, first, ih others]

/-! ## Chains that mirror calls -/

/-- Calls can be read off a chain. The frames of the chain exist; those of calls lie in the
    global frame, which is no call; and a frame is on the chain once more only for a thunk that
    is being computed in it. -/
structure Mirrored (s : State) (chain : List FrameRef) (calls : List CallBoundary) : Prop where
  nonempty : 0 < s.frames.size
  outermost : (s.frame .global).tag = .global
  nothing : (s.frame .global).around = []
  inside : ∀ r ∈ chain, ∃ n < s.frames.size, r = .numbered n
  rooted : ∀ r ∈ chain, ∀ f, (s.frame r).tag = .call f → (s.frame r).around = [.global]
  again (r : FrameRef) (below : List FrameRef) : r :: below <:+ chain → r ∈ below →
    ∃ t, s.Forcing t ∧ (s.memory.thunk t).home = r
  calls : calls = s.callsOn chain

namespace Mirrored
variable {s s' : State} {chain : List FrameRef} {calls : List CallBoundary}

/-- What lasts goes on mirroring the calls. -/
theorem lasts (h : s.Mirrored chain calls) (lasts : s.Lasts s') : s'.Mirrored chain calls where
  nonempty := Nat.lt_of_lt_of_le h.nonempty lasts.frames
  outermost := (lasts.tag 0 h.nonempty).trans h.outermost
  nothing := (lasts.around 0 h.nonempty).trans h.nothing
  inside r member := by
    obtain ⟨n, small, rfl⟩ := h.inside r member
    exact ⟨n, Nat.lt_of_lt_of_le small lasts.frames, rfl⟩
  rooted r member f called := by
    obtain ⟨n, small, rfl⟩ := h.inside r member
    rw [lasts.tag n small] at called
    exact (lasts.around n small).trans (h.rooted _ member f called)
  again r below suffix member := by
    obtain ⟨t, forcing, home⟩ := h.again r below suffix member
    have small : t.index < s.memory.thunks.size := Memory.lt_of_phase fun v forced => nomatch forcing.symm.trans forced
    exact ⟨t, lasts.forcing t forcing, (lasts.thunks t small).2.trans home⟩
  calls := by
    rw [h.calls]
    refine (callsOn_congr fun r member => ?_).symm
    obtain ⟨n, small, rfl⟩ := h.inside r member
    exact lasts.tag n small

/-- One more frame comes on the chain. -/
theorem cons (h : s.Mirrored chain calls) {n : Nat} (inside : n < s.frames.size)
    (rooted : ∀ f, (s.frame (.numbered n)).tag = .call f → (s.frame (.numbered n)).around = [.global])
    (again : .numbered n ∈ chain → ∃ t, s.Forcing t ∧ (s.memory.thunk t).home = .numbered n)
    {calls' : List CallBoundary} (recorded : calls' = s.callsOn (.numbered n :: chain)) :
    s.Mirrored (.numbered n :: chain) calls' where
  nonempty := h.nonempty
  outermost := h.outermost
  nothing := h.nothing
  inside := List.forall_mem_cons.mpr ⟨⟨n, inside, rfl⟩, h.inside⟩
  rooted := List.forall_mem_cons.mpr ⟨rooted, h.rooted⟩
  again r below suffix member := by
    rcases List.suffix_cons_iff.mp suffix with whole | below
    · cases whole
      exact again member
    · exact h.again r _ below member
  calls := recorded

theorem fresh (h : s.Mirrored chain calls) : .numbered s.frames.size ∉ chain := by
  intro member
  obtain ⟨n, small, same⟩ := h.inside _ member
  cases same
  exact Nat.lt_irrefl _ small

theorem push (h : s.Mirrored s.chain s.calls) {tag : FrameTag} (plain : ∀ f, tag ≠ .call f) :
    (s.push tag).2.Mirrored (s.push tag).2.chain (s.push tag).2.calls := by
  have kept : (s.push tag).2.Mirrored s.chain s.calls := h.lasts (.pushInside s tag s.top)
  have made : ((s.push tag).2.frame (.numbered s.frames.size)).tag = tag := by
    rw [State.push, frame_pushInside_self]
  refine kept.cons (n := s.frames.size) ?_ (fun f called => absurd (made.symm.trans called) (plain f))
    (fun member => absurd member h.fresh) ?_
  · show _ < (s.frames.push _).size
    rw [Array.size_push]
    exact Nat.lt_succ_self _
  · rw [callsOn_plain (by rw [made]; exact plain), ← kept.calls]
    rfl

theorem calling (h : s.Mirrored s.chain s.calls) (name : String) :
    (s.calling name).Mirrored (s.calling name).chain (s.calling name).calls := by
  have kept : (s.calling name).Mirrored s.chain s.calls := h.lasts (.calling s name)
  have made : (s.calling name).frame (.numbered s.frames.size) = ⟨.call name, [.global], []⟩ := by
    have pushed := s.frame_pushInside_self (.call name) .global
    rw [h.nothing] at pushed
    exact pushed
  have caller : s.chain.headD .global = s.top := by
    rw [chain, top]
    cases s.stack with
    | nil => rfl
    | cons => rfl
  refine kept.cons (n := s.frames.size) ?_ (fun f _ => by rw [made]) (fun member => absurd member h.fresh) ?_
  · show _ < (s.frames.push _).size
    rw [Array.size_push]
    exact Nat.lt_succ_self _
  · rw [callsOn_call (by rw [made]) h.fresh, ← kept.calls, caller]
    rfl

/-- A thunk is computed in a frame of the chain. The records stay as they are: the global
    frame is no call, and any other frame of the chain counts already. -/
theorem computing (h : s.Mirrored s.chain s.calls) {t : ThunkRef} (waits : (s.memory.thunk t).phase = .pending)
    (held : (s.memory.thunk t).home ∈ s.chain) :
    (s.computing t).Mirrored (s.computing t).chain (s.computing t).calls := by
  have kept : (s.computing t).Mirrored s.chain s.calls := h.lasts (.computing waits)
  have forced := thunk_computing waits
  show (s.computing t).Mirrored ((s.memory.thunk t).home :: s.chain) s.calls
  obtain ⟨n, small, home⟩ := kept.inside _ held
  rw [home] at held ⊢
  refine kept.cons small (kept.rooted _ held) (fun _ => ⟨t, ?_, ?_⟩) ?_
  · rw [Forcing, forced]
  · rw [forced]
    exact home
  · rw [callsOn_again held, ← kept.calls]

/-- An evaluation begins with the global frame and no calls. -/
theorem beginEvaluation {s₀ : State} (lasts : s₀.Lasts s) (nonempty : 0 < s₀.frames.size)
    (outermost : (s₀.frame .global).tag = .global) (nothing : (s₀.frame .global).around = []) :
    s.beginEvaluation.Mirrored s.beginEvaluation.chain s.beginEvaluation.calls := by
  have start : s₀.Mirrored [.global] [] := by
    refine ⟨nonempty, outermost, nothing, ?_, ?_, fun r below suffix member => ?_, ?_⟩
    · exact List.forall_mem_singleton.mpr ⟨0, nonempty, rfl⟩
    · exact List.forall_mem_singleton.mpr fun f called => nomatch outermost.symm.trans called
    · rcases List.suffix_cons_iff.mp suffix with whole | none
      · cases whole
        cases member
      · cases List.suffix_nil.mp none
    · rw [callsOn_plain fun f called => nomatch outermost.symm.trans called]
      rfl
  exact start.lasts (lasts.trans (.beginEvaluation s))

end Mirrored

/-- Where events show that a thunk is at work, its frame was on the chain before. -/
theorem Nested.home_mem {s : State} {n : NodeSummary} {t : ThunkRef} (nested : ((s.computing t).entering n).Nested)
    (waits : (s.memory.thunk t).phase = .pending) : (s.memory.thunk t).home ∈ s.chain := by
  have forced : ((s.computing t).entering n).memory.thunk t = { s.memory.thunk t with phase := .forcing } :=
    thunk_computing waits
  obtain ⟨above, below, split, member⟩ := nested t (by rw [Forcing, forced])
  rw [forced] at split member
  change (s.memory.thunk t).home :: s.stack = above ++ (s.memory.thunk t).home :: below at split
  rw [chain]
  cases above with
  | nil =>
    rw [(List.cons.inj split).2]
    exact member
  | cons r above =>
    rw [(List.cons.inj split).2]
    simp

end State

/-! ## Trails -/

namespace Trail
variable {settings : Settings} {s s' : State} {log : Log}

/-- A trail leaves the chain and the calls as they were, and so they are mirrored still. -/
theorem leaves_mirrored (h : Trail settings s log s') (start : s.Mirrored s.chain s.calls) :
    s'.Mirrored s'.chain s'.calls := by
  have kept := start.lasts h.lasts
  rwa [State.chain, ← h.control.1, ← h.control.2] at kept

theorem leaves_depth (h : Trail settings s log s') (start : s.callDepth ≤ settings.maxCallDepth) :
    s'.callDepth ≤ settings.maxCallDepth := by rwa [State.callDepth, h.control.2]

/-- Wherever a trail shows its events, the calls are mirrored and not too many, if thunks that
    are being computed are at work there. -/
theorem mirrored (h : Trail settings s log s') (start : s.Mirrored s.chain s.calls)
    (shallow : s.callDepth ≤ settings.maxCallDepth) (nested : ∀ entry ∈ log, entry.2.Nested) :
    ∀ entry ∈ log, entry.2.Mirrored entry.2.chain entry.2.calls ∧ entry.2.callDepth ≤ settings.maxCallDepth := by
  induction h with
  | calm change => exact List.forall_mem_nil _
  | append first second ih ih' =>
    obtain ⟨before, after⟩ := List.forall_mem_append.mp nested
    exact List.forall_mem_append.mpr
      ⟨ih start shallow before, ih' (first.leaves_mirrored start) (first.leaves_depth shallow) after⟩
  | visit n may inner ih =>
    obtain ⟨-, within, -⟩ := Log.forall_around.mp nested
    have entered := start.lasts (.entering _ n)
    have visit := Trail.visit n may inner
    exact Log.forall_around.mpr
      ⟨⟨entered, shallow⟩, ih entered shallow within, visit.leaves_mirrored start, visit.leaves_depth shallow⟩
  | frame plain inner ih => exact ih (start.push plain) shallow nested
  | call name may inner ih => exact ih (start.calling name) may nested
  | thunk v waits opens inner ih =>
    -- the first event in the thunk tells that its frame is on the chain
    obtain ⟨n, rest, rfl⟩ := opens
    exact ih (start.computing waits ((nested _ List.mem_cons_self).home_mem waits)) shallow nested

theorem Stopped.mirrored (h : Stopped settings s log s') (start : s.Mirrored s.chain s.calls)
    (shallow : s.callDepth ≤ settings.maxCallDepth) (nested : ∀ entry ∈ log, entry.2.Nested) :
    ∀ entry ∈ log, entry.2.Mirrored entry.2.chain entry.2.calls ∧ entry.2.callDepth ≤ settings.maxCallDepth := by
  induction h with
  | here | refused => exact List.forall_mem_nil _
  | after first second ih =>
    obtain ⟨before, between⟩ := List.forall_mem_append.mp nested
    exact List.forall_mem_append.mpr
      ⟨first.mirrored start shallow before, ih (first.leaves_mirrored start) (first.leaves_depth shallow) between⟩
  | visit n may inner ih =>
    obtain ⟨-, within⟩ := List.forall_mem_cons.mp nested
    have entered := start.lasts (.entering _ n)
    exact List.forall_mem_cons.mpr ⟨⟨entered, shallow⟩, ih entered shallow within⟩
  | frame plain inner ih => exact ih (start.push plain) shallow nested
  | call name may inner ih => exact ih (start.calling name) may nested
  | thunk waits opens inner ih =>
    rcases opens with rfl | ⟨n, rest, rfl⟩
    · exact List.forall_mem_nil _
    · exact ih (start.computing waits ((nested _ List.mem_cons_self).home_mem waits)) shallow nested

end Trail

/-! ## Tasks -/

namespace State

/-- What a task shows is part of the history with which it ends. -/
theorem mem_history (s : State) (tasks : List Task) (t : Task) :
    ∀ s' ∈ (t.run (s.after tasks)).1, s' ∈ s.history (tasks ++ [t]) := by
  induction tasks generalizing s with
  | nil => exact fun s' member => List.mem_cons_of_mem _ (List.mem_append_left _ member)
  | cons first rest ih =>
    exact fun s' member => List.mem_cons_of_mem _ (List.mem_append_right _ (ih (first.run s).2 s' member))

/-- At every suspension point of every task, whatever was run before, the records of the calls
    are those of the call frames on the chain, from the top down: their functions, the numbers
    of their frames, and those of the frames that they were pushed on. A call frame lies in the
    global frame. A frame is on the chain once more only for a thunk that is being computed in
    it, and then it is no further call. And there are never more calls than are allowed. -/
theorem calls_mirrored (tasks : List Task) (t : Task) : ∀ s ∈ (t.run (seeded.after tasks)).1,
    s.calls = s.callsOn s.chain ∧
    (∀ r ∈ s.chain, ∀ f, (s.frame r).tag = .call f → (s.frame r).parent? = some .global) ∧
    (∀ r below, r :: below <:+ s.chain → r ∈ below → ∃ q, s.Forcing q ∧ (s.memory.thunk q).home = r) ∧
    s.callDepth ≤ t.settings.maxCallDepth := by
  have start := Mirrored.beginEvaluation (lasts_after seeded tasks) (Nat.le_refl 1) rfl rfl
  have quiet (q : ThunkRef) : ¬ seeded.Forcing q := by
    rw [Forcing, Memory.thunk_of_le (Nat.zero_le _)]
    rintro ⟨⟩
  have nested := (proper_seeded _).history_nested quiet (tasks ++ [t])
  obtain ⟨seen, -, -⟩ := t.trails (seeded.after tasks)
  obtain ⟨s', stopped⟩ := t.stopped (seeded.after tasks)
  have atWork : ∀ entry ∈ t.log (seeded.after tasks), entry.2.Nested := by
    intro entry member
    refine nested _ (mem_history seeded tasks t _ ?_)
    rw [seen]
    exact List.mem_map_of_mem member
  rw [seen, List.forall_mem_map]
  intro entry member
  obtain ⟨mirrored, shallow⟩ := stopped.mirrored start (Nat.zero_le _) atWork entry member
  refine ⟨mirrored.calls, fun r among f called => ?_, mirrored.again, shallow⟩
  rw [Frame.parent?, mirrored.rooted r among f called]
  rfl

/-- A thunk that was put off in a call calls another function when it is computed. The frame
    of the first call is on the chain twice, and there are two calls. -/
theorem call_from_thunk :
    let g := Tree.func "int" "g" [] [Tree.returnValue (some (Tree.num 2.0))]
    let body := Tree.sequence [Tree.var "int" "x" (some (Tree.call "g" [])), Tree.ident "x"]
    let f : Node := ⟨.function (Tree.typed "int" "f") [] body, none⟩
    let t : Task := ⟨{ strategy := .lazy }, .silent, (), 20, ⟨[g, f, Tree.expr (Tree.call "f" [])], none⟩⟩
    ∃ s ∈ (t.run (seeded.after [])).1, s.chain = [.numbered 3, .numbered 2, .numbered 1, .numbered 1, .global] ∧
      s.callsOn s.chain = [⟨"g", 1, 2⟩, ⟨"f", 0, 1⟩] ∧ s.calls = s.callsOn s.chain ∧ s.callDepth ≤ 256 := by
  intro g body f t
  have seen : ((t.run (seeded.after [])).1.any fun s =>
      decide (s.chain = [.numbered 3, .numbered 2, .numbered 1, .numbered 1, .global]) &&
      decide (s.callsOn s.chain = [⟨"g", 1, 2⟩, ⟨"f", 0, 1⟩])) = true := by decide +kernel
  obtain ⟨s, member, holds⟩ := List.any_eq_true.mp seen
  rw [Bool.and_eq_true, decide_eq_true_eq, decide_eq_true_eq] at holds
  obtain ⟨calls, -, -, deep⟩ := calls_mirrored [] t s member
  exact ⟨s, member, holds.1, holds.2, calls, deep⟩

/-- Where a thunk is computed that was put off in a call, the chain has a call frame twice, and
    there is one call. -/
theorem call_frame_twice :
    let body := Tree.sequence [Tree.var "int" "x" (some (Tree.num 1.0)), Tree.ident "x"]
    let f : Node := ⟨.function (Tree.typed "int" "f") [] body, none⟩
    let p : Program := ⟨[f, Tree.expr (Tree.call "f" [])], none⟩
    ∃ s ∈ p.suspensions { strategy := .lazy } 20, s.chain = [.numbered 1, .numbered 1, .global] ∧
      (s.chain.filter fun r => decide ((s.frame r).tag = .call "f")).length = 2 ∧ s.calls = [⟨"f", 0, 1⟩] := by
  intro body f p
  have seen : ((p.suspensions { strategy := .lazy } 20).any fun s =>
      decide (s.chain = [.numbered 1, .numbered 1, .global]) &&
      decide ((s.chain.filter fun r => decide ((s.frame r).tag = .call "f")).length = 2) &&
      decide (s.calls = [⟨"f", 0, 1⟩])) = true := by decide +kernel
  obtain ⟨s, member, holds⟩ := List.any_eq_true.mp seen
  simp only [Bool.and_eq_true, decide_eq_true_eq] at holds
  exact ⟨s, member, holds.1.1, holds.1.2, holds.2⟩

end State
end MiniC
