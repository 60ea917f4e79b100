import MiniC.Proofs.Pairing

/-!
# A lazy run along with a strict one

A lazy run that goes along with a strict one looks names up in scopes that correspond
frame by frame, and every thunk that it can still need is ready: the scope in which it is
to be computed has what the strict run had when it evaluated the initialiser
(`Matched`). `Aligned` is what an evaluation of both runs relies on, and `Forward` what
it has done to the lazy run.
-/

namespace MiniC

/-! ## Looking up along a scope -/

namespace State

/-- What a name is bound to in the first of some frames that binds it. -/
def seek (s : State) (frames : List FrameRef) (name : String) : Option Binding :=
  frames.findSome? fun r => s.get? r name

theorem seek_cons (s : State) (r : FrameRef) (rest : List FrameRef) (name : String) :
    s.seek (r :: rest) name = (s.get? r name).or (s.seek rest name) := by
  unfold seek
  rw [List.findSome?_cons]
  cases s.get? r name <;> rfl

theorem find?_bind_get? (s : State) (name : String) : ∀ frames : List FrameRef,
    ((frames.find? fun r => (s.frame r).bindings.contains name) >>= fun r => (s.frame r).bindings.get? name) =
      s.seek frames name
  | [] => rfl
  | r :: rest => by
    have bound := (s.frame r).bindings.get?_isSome name
    rw [seek_cons, List.find?_cons]
    unfold get?
    cases found : (s.frame r).bindings.get? name with
    | none =>
      rw [found] at bound
      rw [← bound]
      exact find?_bind_get? s name rest
    | some b =>
      rw [found] at bound
      rw [← bound]
      exact found

/-- A name has the binding that is found along the scope. -/
theorem lookup_eq_ok {s : State} {name : String} {span : Option Span} {b : Binding} :
    s.lookup name span = .ok b ↔ s.seek s.scope name = some b := by
  unfold lookup lookupFrame?
  rw [find?_bind_get?]
  cases s.seek s.scope name <;> simp

end State

/-! ## Corresponding scopes -/

/-- The frames in which a strict and a lazy run look names up, from the inside outwards.
    They agree on the names that `M` tells for each frame of the strict run. Whatever the
    global frame of the strict run binds that of the lazy run does too. -/
inductive Scopes (W : Pairing) (M : FrameRef → String → Prop) (k : Nat) (s l : State) :
    List FrameRef → List FrameRef → Prop
  | outermost (bound : ∀ x b, s.get? .global x = some b → ∃ b', l.get? .global x = some b' ∧ W.Binds k b b')
      (free : ∀ x, M .global x → s.get? .global x = none → l.get? .global x = none) :
      Scopes W M k s l [.global] [.global]
  | inner {n n' : Nat} {rs rs' : List FrameRef} (positive : 0 < n) (positive' : 0 < n')
      (agree : ∀ x, M (.numbered n) x → W.Agree k (s.get? (.numbered n) x) (l.get? (.numbered n') x))
      (rest : Scopes W M k s l rs rs') : Scopes W M k s l (.numbered n :: rs) (.numbered n' :: rs')

namespace Scopes
variable {W W' : Pairing} {M M' : FrameRef → String → Prop} {k k' : Nat} {s s' l l' : State} {rs rs' : List FrameRef}

/-- Scopes correspond as long as their frames bind what they did. -/
theorem change (S : Scopes W M k s l rs rs') (grown : W.Grows W') (le : k ≤ k')
    (names : ∀ r ∈ rs, ∀ x, M' r x → M r x) (strict : ∀ r ∈ rs, ∀ x, s'.get? r x = s.get? r x)
    (put : ∀ r ∈ rs', ∀ x, l'.get? r x = l.get? r x) : Scopes W' M' k' s' l' rs rs' := by
  induction S with
  | outermost bound free =>
    refine .outermost (fun x b found => ?_) (fun x known unbound => ?_)
    · rw [strict _ List.mem_cons_self] at found
      obtain ⟨b', found', binds⟩ := bound x b found
      exact ⟨b', by rw [put _ List.mem_cons_self]; exact found', binds.1, binds.2.mono grown le⟩
    · rw [strict _ List.mem_cons_self] at unbound
      rw [put _ List.mem_cons_self]
      exact free x (names _ List.mem_cons_self x known) unbound
  | inner positive positive' agree rest ih =>
    refine .inner positive positive' (fun x known => ?_) (ih (fun r member => names r (List.mem_cons_of_mem _ member))
      (fun r member => strict r (List.mem_cons_of_mem _ member)) (fun r member => put r (List.mem_cons_of_mem _ member)))
    rw [strict _ List.mem_cons_self, put _ List.mem_cons_self]
    exact (agree x (names _ List.mem_cons_self x known)).mono grown le

theorem numbered (S : Scopes W M k s l rs rs') : (∀ r ∈ rs, ∃ n, r = .numbered n) ∧ ∀ r ∈ rs', ∃ n, r = .numbered n := by
  induction S with
  | outermost => exact ⟨fun r member => ⟨0, List.mem_singleton.mp member⟩, fun r member => ⟨0, List.mem_singleton.mp member⟩⟩
  | inner _ _ _ _ ih =>
    refine ⟨fun r member => ?_, fun r member => ?_⟩
    · rcases List.mem_cons.mp member with rfl | member
      · exact ⟨_, rfl⟩
      · exact ih.1 r member
    · rcases List.mem_cons.mp member with rfl | member
      · exact ⟨_, rfl⟩
      · exact ih.2 r member

/-- Scopes go on to correspond while the runs declare nothing in them. -/
theorem evolved (S : Scopes W M (s.steps + 1) s l s.scope l.scope) (L : s.Lexical) (L' : l.Lexical) (grown : W.Grows W')
    (strict : Evolves .idle s s') (put : Evolves .idle l l') : Scopes W' M (s'.steps + 1) s' l' s'.scope l'.scope := by
  rw [strict.scope L, put.scope L']
  refine S.change grown (Nat.succ_le_succ strict.steps) (fun _ _ _ => id) (fun r member x => ?_) fun r member x => ?_
  · obtain ⟨n, rfl⟩ := S.numbered.1 r member
    exact strict.get?_eq rfl rfl (L.numbered_of_mem_scope member).1 x
  · obtain ⟨n, rfl⟩ := S.numbered.2 r member
    exact put.get?_eq rfl rfl (L'.numbered_of_mem_scope member).1 x

theorem tail {r r' : FrameRef} (S : Scopes W M k s l (r :: rs) (r' :: rs')) (nonempty : rs ≠ []) : Scopes W M k s l rs rs' := by
  cases S with
  | outermost => exact absurd rfl nonempty
  | inner _ _ _ rest => exact rest

/-- All scopes end with the global frame. -/
theorem outside (S : Scopes W M k s l rs rs') : Scopes W M k s l [.global] [.global] := by
  induction S with
  | outermost bound free => exact .outermost bound free
  | inner _ _ _ _ ih => exact ih

/-- Whatever the global frame of the strict run binds, that of the lazy run does too. -/
theorem global (S : Scopes W M k s l rs rs') {x : String} {b : Binding} (found : s.get? .global x = some b) :
    ∃ b', l.get? .global x = some b' ∧ W.Binds k b b' := by
  induction S with
  | outermost bound free => exact bound x b found
  | inner _ _ _ _ ih => exact ih

theorem global_free (S : Scopes W M k s l rs rs') {x : String} (known : M .global x) (free : s.get? .global x = none) :
    l.get? .global x = none := by
  induction S with
  | outermost _ unbound => exact unbound x known free
  | inner _ _ _ _ ih => exact ih

/-- What is free on top for the strict run is so for the lazy one. -/
theorem top_free {r r' : FrameRef} {x : String} (S : Scopes W M k s l (r :: rs) (r' :: rs')) (known : M r x)
    (free : s.get? r x = none) : l.get? r' x = none := by
  cases S with
  | outermost _ unbound => exact unbound x known free
  | inner _ _ agree _ =>
    have agreed := agree x known
    rw [free] at agreed
    generalize l.get? _ x = o at agreed ⊢
    cases agreed
    rfl

/-- A name on which the inner frames agree is found alike. -/
theorem seek (S : Scopes W M k s l rs rs') {x : String} {b : Binding} (names : ∀ r ∈ rs, r ≠ .global → M r x)
    (found : s.seek rs x = some b) : ∃ b', l.seek rs' x = some b' ∧ W.Binds k b b' := by
  induction S with
  | outermost bound _ =>
    rw [State.seek_cons, show s.seek [] x = none from rfl, Option.or_none] at found
    rw [State.seek_cons, show l.seek [] x = none from rfl, Option.or_none]
    exact bound x b found
  | @inner n n' rs rs' positive _ agree rest ih =>
    have other : FrameRef.numbered n ≠ .global := fun same => Nat.ne_of_gt positive (FrameRef.numbered.inj same)
    have agreed := agree x (names _ List.mem_cons_self other)
    rw [State.seek_cons] at found ⊢
    generalize s.get? (.numbered n) x = o at agreed found
    generalize l.get? (.numbered n') x = o' at agreed ⊢
    cases agreed with
    | free => exact ih (fun r member => names r (List.mem_cons_of_mem _ member)) found
    | bound binds =>
      cases found
      exact ⟨_, rfl, binds⟩

/-- A name that is looked up means the same in both runs. -/
theorem lookup {x : String} {b : Binding} {span : Option Span} (span' : Option Span) (S : Scopes W M k s l s.scope l.scope)
    (names : ∀ r ∈ s.scope, r ≠ .global → M r x) (found : s.lookup x span = .ok b) :
    ∃ b', l.lookup x span' = .ok b' ∧ W.Binds k b b' := by
  obtain ⟨b', found', binds⟩ := S.seek names (State.lookup_eq_ok.mp found)
  exact ⟨b', State.lookup_eq_ok.mpr found', binds⟩

/-! ### Declarations -/

/-- Both runs declare a name in the frame on top. -/
theorem declare {r r' : FrameRef} {x : String} {b b' : Binding} (S : Scopes W M k s l (r :: rs) (r' :: rs'))
    (inside : r.number < s.frames.size) (inside' : r'.number < l.frames.size) (newer : ∀ q ∈ rs, q ≠ r)
    (newer' : ∀ q ∈ rs', q ≠ r') (binds : W.Binds k b b') :
    Scopes W M k (s.bind r x b) (l.bind r' x b') (r :: rs) (r' :: rs') := by
  cases S with
  | outermost bound free =>
    refine .outermost (fun y c found => ?_) (fun y known unbound => ?_)
    · rw [FrameRef.global, State.get?_bind] at found ⊢
      by_cases same : y = x
      · rw [if_pos ⟨rfl, inside, same⟩] at found
        cases found
        exact ⟨b', if_pos ⟨rfl, inside', same⟩, binds⟩
      · rw [if_neg fun all => same all.2.2] at found ⊢
        exact bound y c found
    · rw [FrameRef.global, State.get?_bind] at unbound ⊢
      by_cases same : y = x
      · rw [if_pos ⟨rfl, inside, same⟩] at unbound
        cases unbound
      · rw [if_neg fun all => same all.2.2] at unbound ⊢
        exact free y known unbound
  | @inner n n' _ _ positive positive' agree rest =>
    refine .inner positive positive' (fun y known => ?_) (rest.change (.refl W) (Nat.le_refl k) (fun _ _ _ => id)
      (fun q member y => ?_) (fun q member y => ?_))
    · rw [State.get?_bind, State.get?_bind]
      by_cases same : y = x
      · rw [if_pos ⟨rfl, inside, same⟩, if_pos ⟨rfl, inside', same⟩]
        exact .bound binds
      · rw [if_neg fun all => same all.2.2, if_neg fun all => same all.2.2]
        exact agree y known
    · rw [State.get?_bind, if_neg fun all => newer q member all.1]
    · rw [State.get?_bind, if_neg fun all => newer' q member all.1]

/-- Both runs declare a name in the global frame. -/
theorem declareGlobal {x : String} {b b' : Binding} (S : Scopes W M k s l rs rs') (inside : 0 < s.frames.size)
    (inside' : 0 < l.frames.size) (binds : W.Binds k b b') :
    Scopes W M k (s.bind .global x b) (l.bind .global x b') rs rs' := by
  induction S with
  | outermost bound free => exact declare (.outermost bound free) inside inside' nofun nofun binds
  | inner positive positive' agree rest ih =>
    refine .inner positive positive' (fun y known => ?_) ih
    rw [FrameRef.global, State.get?_bind, State.get?_bind,
      if_neg fun all => Nat.ne_of_gt positive (FrameRef.numbered.inj all.1),
      if_neg fun all => Nat.ne_of_gt positive' (FrameRef.numbered.inj all.1)]
    exact agree y known

/-- The lazy run alone declares a name that does not matter. -/
theorem unmentioned {n : Nat} {x : String} {b : Binding} (S : Scopes W M k s l rs rs')
    (free : l.get? (.numbered n) x = none) (unknown : ∀ r ∈ rs, ¬ M r x) :
    Scopes W M k s (l.bind (.numbered n) x b) rs rs' := by
  induction S with
  | outermost bound unbound =>
    refine .outermost (fun y c found => ?_) (fun y known none => ?_)
    · obtain ⟨c', found', binds⟩ := bound y c found
      refine ⟨c', ?_, binds⟩
      rw [State.get?_bind, if_neg]
      · exact found'
      · rintro ⟨here, -, rfl⟩
        rw [here, free] at found'
        cases found'
    · rw [State.get?_bind, if_neg]
      · exact unbound y known none
      · rintro ⟨-, -, rfl⟩
        exact unknown _ List.mem_cons_self known
  | inner positive positive' agree rest ih =>
    refine .inner positive positive' (fun y known => ?_) (ih fun r member => unknown r (List.mem_cons_of_mem _ member))
    rw [State.get?_bind, if_neg]
    · exact agree y known
    · rintro ⟨-, -, rfl⟩
      exact unknown _ List.mem_cons_self known

/-- The lazy run alone declares a global name. -/
theorem unmentioned_global {x : String} {b : Binding} (S : Scopes W M k s l rs rs')
    (free : l.get? .global x = none) (unknown : ¬ M .global x) : Scopes W M k s (l.bind .global x b) rs rs' := by
  induction S with
  | outermost bound unbound =>
    exact unmentioned (.outermost bound unbound) free fun r member => List.mem_singleton.mp member ▸ unknown
  | inner positive positive' agree rest ih =>
    refine .inner positive positive' (fun y known => ?_) ih
    rw [FrameRef.global, State.get?_bind, if_neg fun all => Nat.ne_of_gt positive' (FrameRef.numbered.inj all.1)]
    exact agree y known

end Scopes

/-! ## What a lazy run keeps -/

/-- A strict evaluation that nobody watches. -/
def Settings.strictly (settings : Settings) : Context Unit :=
  ⟨{ settings with strategy := .strict, maxSteps := none }, .silent⟩

/-- A lazy evaluation that nobody watches, with a limit of calls inside each other. -/
def Settings.lazily (settings : Settings) (limit : Nat) : Context Unit :=
  ⟨{ settings with strategy := .lazy, maxSteps := none, maxCallDepth := limit }, .silent⟩

theorem State.chain_eq (s : State) : s.chain = s.top :: s.chain.tail := by
  unfold chain top
  cases s.stack <;> rfl

/-- The frame on top is newer than all other frames of the chain. -/
def State.Newest (s : State) : Prop := ∀ r ∈ s.chain.tail, r.number < s.top.number

/-- An array or a function that a strict run makes, by its number. -/
inductive Ticket where
  | array (i : Nat)
  | closure (i : Nat)

/-- What a strict run makes between two states. -/
def Produced (s s' : State) : Ticket → Prop
  | .array i => s.memory.arrays.size ≤ i ∧ i < s'.memory.arrays.size
  | .closure i => s.memory.closures ≤ i ∧ i < s'.memory.closures

/-- Who in a lazy run stands for something that the strict run has made, or will. -/
inductive Claimant where
  | array (i : Nat)
  | closure (i : Nat)
  | thunk (t : ThunkRef)

/-- What an array or a function stands for, and whatever was made by the evaluation that
    a waiting thunk has put off. -/
def Claims (W : Pairing) (l : State) : Claimant → Ticket → Prop
  | .array i, .array j => W.arrays[i]? = some j
  | .closure i, .closure j => W.closures[i]? = some j
  | .thunk t, ticket => ∃ b, W.backings[t.index]? = some b ∧ (l.memory.thunk t).phase = .pending ∧
      Produced b.start b.finish ticket
  | _, _ => False

/-- Whether something that the strict run makes is spoken for. -/
def Claimed (W : Pairing) (l : State) (ticket : Ticket) : Prop := ∃ c, Claims W l c ticket

namespace Backing

/-- The names that the initialiser mentions, in the frames other than the global one. -/
def names (b : Backing) (r : FrameRef) (x : String) : Prop := r ≠ .global ∧ x ∈ b.initial.facts.mentions

/-- The strict run did evaluate the initialiser, and nothing but orderly code was. -/
structure Valid (settings : Settings) (b : Backing) : Prop where
  sober : b.start.Sober
  ran : Eval.visit settings.strictly b.fuel b.initial .block ⟨b.start, ()⟩ = .ok (.normal b.result) ⟨b.finish, ()⟩
  fitted (span : Option Span) : b.result.cast b.kind span = .ok b.value
  orderly : b.initial.facts.delay.ok = true

/-- How a thunk of a lazy run stands to its backing. If it waits for a frame that is on
    the chain, this frame still has all that the strict run had. -/
structure Backs (settings : Settings) (H : Array (Array Value)) (W : Pairing) (l : State) (t : ThunkRef) (b : Backing) :
    Prop where
  valid : b.Valid settings
  heap : Extends b.finish.memory.arrays H
  expression : (l.memory.thunk t).expression = b.initial.castTo b.kind
  home : ∃ n < l.frames.size, (l.memory.thunk t).home = .numbered n
  forced (w : Value) : (l.memory.thunk t).phase = .forced w → W.Same b.value w
  ready : (l.memory.thunk t).phase = .pending → (l.memory.thunk t).home ∈ l.chain →
    Scopes W b.names (b.start.steps + 1) b.start l b.start.scope (l.scopeOf (l.memory.thunk t).home)

end Backing

/-- The arrays and functions of a lazy run, against the arrays that the strict run has in
    the end. -/
structure Stored (H : Array (Array Value)) (W : Pairing) (m : Memory) : Prop where
  arrays : W.arrays.length = m.arrays.size
  closures : W.closures.length = m.closures
  elements (q r : Nat) : W.arrays[q]? = some r →
    ∃ vs ws, H[r]? = some vs ∧ m.arrays[q]? = some ws ∧ List.Forall₂ W.Same vs.toList ws.toList
  older (q : Nat) (ws : Array Value) (r : ArrayRef) : m.arrays[q]? = some ws → .array r ∈ ws → r.index < q

/-- The invariant of a lazy run that goes along with a strict one. Nothing that the
    strict run makes is claimed twice. -/
structure Matched (settings : Settings) (H : Array (Array Value)) (W : Pairing) (l : State) : Prop where
  lexical : l.Lexical
  stored : Stored H W l.memory
  backings : W.backings.length = l.memory.thunks.size
  backs (t : ThunkRef) (b : Backing) : W.backings[t.index]? = some b → b.Backs settings H W l t
  unique (c c' : Claimant) (ticket : Ticket) : Claims W l c ticket → Claims W l c' ticket → c = c'

/-! ### Changes of the lazy run -/

/-- Claims are given up when thunks no longer wait. -/
theorem Claims.release {W : Pairing} {l l' : State} {c : Claimant} {ticket : Ticket}
    (pending : ∀ t, (l'.memory.thunk t).phase = .pending → (l.memory.thunk t).phase = .pending)
    (h : Claims W l' c ticket) : Claims W l c ticket := by
  cases c with
  | thunk t =>
    obtain ⟨b, backed, waits, made⟩ := h
    exact ⟨b, backed, pending t waits, made⟩
  | array i => cases ticket <;> exact h
  | closure i => cases ticket <;> exact h

/-- Nothing but a new array claims what it stands for. -/
theorem Claims.of_newArray {W : Pairing} {l : State} {ws : Array Value} {j : Nat} {c : Claimant} {ticket : Ticket}
    (h : Claims { W with arrays := W.arrays ++ [j] } { l with memory := (l.memory.newArray ws).2 } c ticket) :
    Claims W l c ticket ∨ c = .array W.arrays.length ∧ ticket = .array j := by
  cases c with
  | array i =>
    cases ticket with
    | array r =>
      rcases getElem?_concat.mp h with paired | ⟨rfl, rfl⟩
      · exact .inl paired
      · exact .inr ⟨rfl, rfl⟩
    | closure r => exact .inl h
  | closure i => cases ticket <;> exact .inl h
  | thunk t => exact .inl h

theorem Claims.of_newClosure {W : Pairing} {l : State} {name : Option String} {params : List Param} {body : Node} {j : Nat}
    {c : Claimant} {ticket : Ticket}
    (h : Claims { W with closures := W.closures ++ [j] } { l with memory := (l.memory.newClosure name params body).2 }
      c ticket) :
    Claims W l c ticket ∨ c = .closure W.closures.length ∧ ticket = .closure j := by
  cases c with
  | array i => cases ticket <;> exact .inl h
  | closure i =>
    cases ticket with
    | array r => exact .inl h
    | closure r =>
      rcases getElem?_concat.mp h with paired | ⟨rfl, rfl⟩
      · exact .inl paired
      · exact .inr ⟨rfl, rfl⟩
  | thunk t => exact .inl h

theorem Claims.of_newThunk {W : Pairing} {l : State} {n : Node} {home : FrameRef} {b : Backing} {c : Claimant} {ticket : Ticket}
    (backings : W.backings.length = l.memory.thunks.size)
    (h : Claims { W with backings := W.backings ++ [b] } { l with memory := (l.memory.newThunk n home).2 } c ticket) :
    Claims W l c ticket ∨ c = .thunk ⟨W.backings.length⟩ ∧ Produced b.start b.finish ticket := by
  cases c with
  | array i => cases ticket <;> exact .inl h
  | closure i => cases ticket <;> exact .inl h
  | thunk t =>
    obtain ⟨b', backed, waits, made⟩ := h
    rcases getElem?_concat.mp backed with backed | ⟨last, rfl⟩
    · have inside : t.index < l.memory.thunks.size := by
        rw [← backings]
        exact (List.getElem?_eq_some_iff.mp backed).1
      rw [Memory.thunk_newThunk n home inside] at waits
      exact .inl ⟨b', backed, waits, made⟩
    · obtain ⟨i⟩ := t
      cases last
      exact .inr ⟨rfl, made⟩

namespace Matched
variable {settings : Settings} {H : Array (Array Value)} {W W' : Pairing} {l l' : State}

/-- Only frames and the stack change. -/
theorem reframe (h : Matched settings H W l) (lexical : l'.Lexical) (memory : l'.memory = l.memory)
    (frames : l.frames.size ≤ l'.frames.size)
    (ready : ∀ (t : ThunkRef) (b : Backing), W.backings[t.index]? = some b → (l.memory.thunk t).phase = .pending →
      (l.memory.thunk t).home ∈ l'.chain →
      Scopes W b.names (b.start.steps + 1) b.start l' b.start.scope (l'.scopeOf (l.memory.thunk t).home)) :
    Matched settings H W l' := by
  refine ⟨lexical, by rw [memory]; exact h.stored, by rw [memory]; exact h.backings, fun t b backed => ?_,
    fun c c' ticket first second => ?_⟩
  · have old := h.backs t b backed
    obtain ⟨n, inside, home⟩ := old.home
    exact ⟨old.valid, old.heap, by rw [memory]; exact old.expression,
      ⟨n, Nat.lt_of_lt_of_le inside frames, by rw [memory]; exact home⟩,
      by rw [memory]; exact old.forced, by rw [memory]; exact ready t b backed⟩
  · exact h.unique c c' ticket (first.release fun t waits => by rwa [memory] at waits)
      (second.release fun t waits => by rwa [memory] at waits)

/-- Nothing changes but what no evaluation depends on. -/
theorem tick (h : Matched settings H W l) (stack : l'.stack = l.stack) (frames : l'.frames = l.frames)
    (memory : l'.memory = l.memory) : Matched settings H W l' := by
  have same (n : Nat) : l'.frame (.numbered n) = l.frame (.numbered n) := by simp only [State.frame, frames]
  refine h.reframe (h.lexical.restack frames memory (by rw [stack]; exact h.lexical.stacked)) memory
    (Nat.le_of_eq (by rw [frames])) fun t b backed waits held => ?_
  obtain ⟨n, -, home⟩ := (h.backs t b backed).home
  have ready := (h.backs t b backed).ready waits (by rwa [State.chain, ← stack])
  rw [home] at ready ⊢
  rw [show l'.scopeOf (.numbered n) = l.scopeOf (.numbered n) by rw [State.scopeOf, same, State.scopeOf]]
  refine ready.change (.refl W) (Nat.le_refl _) (fun _ _ _ => id) (fun _ _ _ => rfl) fun r member x => ?_
  obtain ⟨k, rfl⟩ := ready.numbered.2 r member
  rw [State.get?, same, State.get?]

/-- A fresh frame is put on top. -/
theorem pushInside (h : Matched settings H W l) (tag : FrameTag) {parent : FrameRef}
    (allowed : parent = l.top ∨ parent = .global) : Matched settings H W (l.pushInside tag parent).2 := by
  have size := l.size_frames_pushInside tag parent
  have same {n : Nat} (inside : n < l.frames.size) := State.frame_pushInside_of_lt tag parent inside
  refine h.reframe (h.lexical.pushInside tag allowed) rfl (by rw [size]; exact Nat.le_succ _) fun t b backed waits held => ?_
  obtain ⟨n, inside, home⟩ := (h.backs t b backed).home
  have held : (l.memory.thunk t).home ∈ l.chain := by
    rcases List.mem_cons.mp held with new | old
    · rw [home] at new
      exact absurd (FrameRef.numbered.inj new) (Nat.ne_of_lt inside)
    · exact old
  have ready := (h.backs t b backed).ready waits held
  rw [home] at ready ⊢
  rw [show (l.pushInside tag parent).2.scopeOf (.numbered n) = l.scopeOf (.numbered n) by
    rw [State.scopeOf, same inside, State.scopeOf]]
  refine ready.change (.refl W) (Nat.le_refl _) (fun _ _ _ => id) (fun _ _ _ => rfl) fun r member x => ?_
  obtain ⟨-, -, le, numbered, -⟩ := h.lexical.scopeOf_split inside member
  rw [numbered, State.get?, same (Nat.lt_of_le_of_lt le inside), State.get?]

/-- The frame on top is given up. -/
theorem dropTop (h : Matched settings H W l) : Matched settings H W l.dropTop := by
  refine h.reframe h.lexical.dropTop l.dropTop_memory (Nat.le_of_eq (by rw [State.frames_dropTop]))
    fun t b backed waits held => ?_
  have before : (l.memory.thunk t).home ∈ l.chain := by
    rw [State.chain, State.dropTop_stack] at held
    rw [State.chain]
    cases stack : l.stack with
    | nil => rwa [stack] at held
    | cons r rest =>
      rw [stack] at held
      exact List.mem_cons_of_mem _ held
  have ready := (h.backs t b backed).ready waits before
  rw [show l.dropTop.scopeOf (l.memory.thunk t).home = l.scopeOf (l.memory.thunk t).home by
    rw [State.scopeOf, State.frame_dropTop_of_chain h.lexical held, State.scopeOf]]
  refine ready.change (.refl W) (Nat.le_refl _) (fun _ _ _ => id) (fun _ _ _ => rfl) fun r member x => ?_
  have left : r ∈ l.dropTop.chain := by
    refine h.lexical.dropTop.mem_of_mem_scopeOf h.lexical.dropTop.stacked _ held r ?_
    rw [State.scopeOf, State.frame_dropTop_of_chain h.lexical held]
    exact member
  rw [State.get?, State.frame_dropTop_of_chain h.lexical left, State.get?]

/-- A name is declared in the frame on top, which is the newest one. No initialiser that
    waits for this frame mentions the name. -/
theorem declare (h : Matched settings H W l) {n : Nat} {x : String} {b : Binding} (top : l.top = .numbered n)
    (free : l.get? (.numbered n) x = none) (own : l.Own (.numbered n) b.value) (newest : l.Newest)
    (clear : ∀ (t : ThunkRef) (b' : Backing), W.backings[t.index]? = some b' → (l.memory.thunk t).phase = .pending →
      (l.memory.thunk t).home = l.top → x ∉ b'.initial.facts.mentions) :
    Matched settings H W (l.bind (.numbered n) x b) := by
  refine h.reframe (h.lexical.bind own) (l.bind_memory _ x b) (Nat.le_of_eq (State.frames_modifyBindings ..).symm)
    fun t b' backed waits held => ?_
  obtain ⟨m, inside, home⟩ := (h.backs t b' backed).home
  rw [State.chain, State.bind_stack, ← State.chain] at held
  have ready := (h.backs t b' backed).ready waits held
  have kept : (l.bind (.numbered n) x b).scopeOf (.numbered m) = l.scopeOf (.numbered m) := by
    rw [State.scopeOf, State.bind, State.around_modifyBindings, State.scopeOf]
  by_cases here : (l.memory.thunk t).home = l.top
  · rw [home] at ready ⊢
    rw [kept]
    exact ready.unmentioned free fun r _ named => clear t b' backed waits here named.2
  · have older : m < n := by
      rw [l.chain_eq] at held
      rcases List.mem_cons.mp held with same | below
      · exact absurd same here
      · have lt := newest _ below
        rwa [home, top] at lt
    rw [home] at ready ⊢
    rw [kept]
    refine ready.change (.refl W) (Nat.le_refl _) (fun _ _ _ => id) (fun _ _ _ => rfl) fun r member y => ?_
    rw [State.get?_bind, if_neg]
    rintro ⟨rfl, -⟩
    obtain ⟨-, -, le, -⟩ := h.lexical.scopeOf_split inside member
    exact absurd older (Nat.not_lt.mpr le)

/-- A name is declared in the global frame. -/
theorem declareGlobal (h : Matched settings H W l) {x : String} {b : Binding} (free : l.get? .global x = none)
    (plain : b.value.Plain) : Matched settings H W (l.bind .global x b) := by
  refine h.reframe (h.lexical.bind (plain.own l _)) (l.bind_memory _ x b)
    (Nat.le_of_eq (State.frames_modifyBindings ..).symm) fun t b' backed waits held => ?_
  obtain ⟨m, -, home⟩ := (h.backs t b' backed).home
  rw [State.chain, State.bind_stack, ← State.chain] at held
  have ready := (h.backs t b' backed).ready waits held
  rw [home] at ready ⊢
  rw [show (l.bind .global x b).scopeOf (.numbered m) = l.scopeOf (.numbered m) by
    rw [State.scopeOf, State.bind, State.around_modifyBindings, State.scopeOf]]
  exact ready.unmentioned_global free fun named => named.1 rfl

/-! ### Growth of the memory -/

/-- Someone may claim what nobody has claimed. -/
theorem unique_claim (h : Matched settings H W l) (newcomer : Claimant) (made : Ticket → Prop)
    (others : ∀ c ticket, Claims W' l' c ticket → Claims W l c ticket ∨ c = newcomer ∧ made ticket)
    (unclaimed : ∀ ticket, made ticket → ¬ Claimed W l ticket) (c c' : Claimant) (ticket : Ticket)
    (first : Claims W' l' c ticket) (second : Claims W' l' c' ticket) : c = c' := by
  rcases others c ticket first with old | ⟨same, new⟩
  · rcases others c' ticket second with old' | ⟨-, new⟩
    · exact h.unique c c' ticket old old'
    · exact absurd ⟨c, old⟩ (unclaimed ticket new)
  · rcases others c' ticket second with old' | ⟨same', -⟩
    · exact absurd ⟨c', old'⟩ (unclaimed ticket new)
    · rw [same, same']

/-- The frames stay as they are while more is paired. -/
theorem backs_grown (h : Matched settings H W l) (grown : W.Grows W') {memory : Memory} {t : ThunkRef} {b : Backing}
    (backed : W.backings[t.index]? = some b) (same : memory.thunk t = l.memory.thunk t) :
    b.Backs settings H W' { l with memory } t := by
  have old := h.backs t b backed
  refine ⟨old.valid, old.heap, by rw [same]; exact old.expression, by rw [same]; exact old.home, fun w forced => ?_,
    fun waits held => ?_⟩
  · rw [same] at forced
    exact (old.forced w forced).mono grown
  · rw [same] at waits held ⊢
    exact (old.ready waits held).change grown (Nat.le_refl _) (fun _ _ _ => id) (fun _ _ _ => rfl) (fun _ _ _ => rfl)

/-- Both runs make an array. -/
theorem newArray (h : Matched settings H W l) {j : Nat} {vs ws : Array Value} (made : H[j]? = some vs)
    (same : List.Forall₂ W.Same vs.toList ws.toList) (unclaimed : ¬ Claimed W l (.array j)) :
    Matched settings H { W with arrays := W.arrays ++ [j] } { l with memory := (l.memory.newArray ws).2 } := by
  have grown := Pairing.Grows.array W j
  have related (w : Value) (member : w ∈ ws) : ∃ v, W.Same v w := by
    obtain ⟨v, -, related⟩ := exists_of_mem_right same (Array.mem_toList_iff.mpr member)
    exact ⟨v, related⟩
  refine ⟨h.lexical.newArray fun w member => (related w member).choose_spec.plain_right,
    ⟨?_, h.stored.closures, fun q r paired => ?_, fun q us r found member => ?_⟩, h.backings,
    fun t b backed => h.backs_grown grown backed rfl,
    h.unique_claim (.array W.arrays.length) (· = .array j) (fun _ _ => Claims.of_newArray) fun ticket same => same ▸ unclaimed⟩
  · show (W.arrays ++ [j]).length = (l.memory.arrays.push ws).size
    rw [List.length_append, Array.size_push, h.stored.arrays]
    rfl
  · show ∃ vs us, H[r]? = some vs ∧ (l.memory.arrays.push ws)[q]? = some us ∧ _
    rcases getElem?_concat.mp paired with paired | ⟨rfl, rfl⟩
    · obtain ⟨vs', ws', old, new, related⟩ := h.stored.elements q r paired
      exact ⟨vs', ws', old, Extends.push _ _ q ws' new, related.imp fun _ _ r => r.mono grown⟩
    · exact ⟨vs, ws, made, by rw [h.stored.arrays, Array.getElem?_push_size], same.imp fun _ _ r => r.mono grown⟩
  · change (l.memory.arrays.push ws)[q]? = some us at found
    rw [Array.getElem?_push] at found
    split at found
    · rename_i last
      cases found
      obtain ⟨v, related⟩ := related _ member
      cases related with
      | array paired =>
        rw [last, ← h.stored.arrays]
        exact (List.getElem?_eq_some_iff.mp paired).1
    · exact h.stored.older q us r found member

/-- Both runs make a function. -/
theorem newClosure (h : Matched settings H W l) {j : Nat} (name : Option String) (params : List Param) (body : Node)
    (unclaimed : ¬ Claimed W l (.closure j)) :
    Matched settings H { W with closures := W.closures ++ [j] }
      { l with memory := (l.memory.newClosure name params body).2 } := by
  have grown := Pairing.Grows.closure W j
  refine ⟨h.lexical.remember _ (fun _ inside => ⟨inside, rfl⟩) h.lexical.arrays h.lexical.memos,
    ⟨h.stored.arrays, ?_, fun q r paired => ?_, h.stored.older⟩, h.backings, fun t b backed => h.backs_grown grown backed rfl,
    h.unique_claim (.closure W.closures.length) (· = .closure j) (fun _ _ => Claims.of_newClosure) fun ticket same =>
      same ▸ unclaimed⟩
  · show (W.closures ++ [j]).length = l.memory.closures + 1
    rw [List.length_append, h.stored.closures]
    rfl
  · obtain ⟨vs, ws, old, new, related⟩ := h.stored.elements q r paired
    exact ⟨vs, ws, old, new, related.imp fun _ _ r => r.mono grown⟩

/-- The lazy run puts off what the strict run evaluates. -/
theorem newThunk (h : Matched settings H W l) {b : Backing} (valid : b.Valid settings) (heap : Extends b.finish.memory.arrays H)
    (ready : Scopes W b.names (b.start.steps + 1) b.start l b.start.scope l.scope)
    (unclaimed : ∀ ticket, Produced b.start b.finish ticket → ¬ Claimed W l ticket) :
    Matched settings H { W with backings := W.backings ++ [b] }
      { l with memory := (l.memory.newThunk (b.initial.castTo b.kind) l.top).2 } := by
  have grown := Pairing.Grows.backing W b
  have old {t : ThunkRef} {b' : Backing} (backed : W.backings[t.index]? = some b') :
      (l.memory.newThunk (b.initial.castTo b.kind) l.top).2.thunk t = l.memory.thunk t := by
    refine Memory.thunk_newThunk _ _ ?_
    rw [← h.backings]
    exact (List.getElem?_eq_some_iff.mp backed).1
  have new {t : ThunkRef} (last : t.index = W.backings.length) :
      (l.memory.newThunk (b.initial.castTo b.kind) l.top).2.thunk t = ⟨b.initial.castTo b.kind, l.top, .pending⟩ := by
    obtain ⟨i⟩ := t
    rw [h.backings] at last
    cases last
    exact l.memory.thunk_newThunk_self _ _
  refine ⟨h.lexical.newThunk _ _, ⟨h.stored.arrays, h.stored.closures, fun q r paired => ?_, h.stored.older⟩, ?_,
    fun t b' backed => ?_,
    h.unique_claim (.thunk ⟨W.backings.length⟩) (Produced b.start b.finish) (fun _ _ => Claims.of_newThunk h.backings)
      unclaimed⟩
  · obtain ⟨vs, ws, old, new, related⟩ := h.stored.elements q r paired
    exact ⟨vs, ws, old, new, related.imp fun _ _ r => r.mono grown⟩
  · rw [Memory.thunks_newThunk, List.length_append, h.backings]
    rfl
  · rcases getElem?_concat.mp backed with backed | ⟨last, rfl⟩
    · exact h.backs_grown grown backed (old backed)
    · have made := new last
      obtain ⟨n, inside, top⟩ := h.lexical.top_inside
      refine ⟨valid, heap, by rw [made], ⟨n, inside, by rw [made]; exact top⟩, fun w forced => ?_, fun _ _ => ?_⟩
      · rw [made] at forced
        cases forced
      · rw [made]
        exact ready.change grown (Nat.le_refl _) (fun _ _ _ => id) (fun _ _ _ => rfl) (fun _ _ _ => rfl)

/-- A frame of the scope is put on top once more. -/
theorem reenter (h : Matched settings H W l) {home : FrameRef} (seen : home ∈ l.scope) :
    Matched settings H W (l.reenter home) := by
  obtain ⟨inside, numbered⟩ := h.lexical.numbered_of_mem_scope seen
  have same (q : FrameRef) : (l.reenter home).frame q = l.frame q := by cases q <;> rfl
  have lexical : (l.reenter home).Lexical := by
    refine h.lexical.restack rfl rfl ?_
    show l.Stacked (home :: l.stack)
    rw [numbered]
    exact .reenter inside h.lexical.stacked (numbered ▸ seen)
  refine h.reframe lexical rfl (Nat.le_refl _) fun t b backed waits held => ?_
  have held : (l.memory.thunk t).home ∈ l.chain := by
    rcases List.mem_cons.mp held with here | below
    · rw [here]
      exact h.lexical.mem_chain_of_mem_scope seen
    · exact below
  have ready := (h.backs t b backed).ready waits held
  rw [show (l.reenter home).scopeOf (l.memory.thunk t).home = l.scopeOf (l.memory.thunk t).home by
    rw [State.scopeOf, same, State.scopeOf]]
  exact ready.change (.refl W) (Nat.le_refl _) (fun _ _ _ => id) (fun _ _ _ => rfl) fun r _ x => by
    rw [State.get?, same, State.get?]

/-- A thunk that has a backing is computed, or is done with the value that is expected. -/
theorem setPhase (h : Matched settings H W l) {t : ThunkRef} {b : Backing} (phase : Phase)
    (backed : W.backings[t.index]? = some b) (started : phase ≠ .pending) (same : ∀ w, phase = .forced w → W.Same b.value w) :
    Matched settings H W (l.setPhase t phase) := by
  have frame (q : FrameRef) : (l.setPhase t phase).frame q = l.frame q := by cases q <;> rfl
  have memory : (l.setPhase t phase).memory = l.memory.setPhase t phase := rfl
  have home (q : ThunkRef) : ((l.setPhase t phase).memory.thunk q).home = (l.memory.thunk q).home := by
    rw [memory, Memory.thunk_setPhase]
    split <;> rfl
  have pending (q : ThunkRef) (waits : ((l.setPhase t phase).memory.thunk q).phase = .pending) :
      (l.memory.thunk q).phase = .pending := by
    rw [memory, Memory.thunk_setPhase] at waits
    split at waits
    · exact absurd waits started
    · exact waits
  refine ⟨h.lexical.setPhase fun w forced => (same w forced).plain_right,
    ⟨h.stored.arrays, h.stored.closures, h.stored.elements, h.stored.older⟩, ?_, fun q b' backed' => ?_,
    fun c c' ticket first second => h.unique c c' ticket (first.release pending) (second.release pending)⟩
  · rw [memory, Memory.thunks_setPhase]
    exact h.backings
  · have old := h.backs q b' backed'
    refine ⟨old.valid, old.heap, ?_, ?_, fun w forced => ?_, fun waits held => ?_⟩
    · rw [memory, Memory.thunk_setPhase]
      split
      · exact old.expression
      · exact old.expression
    · rw [home]
      exact old.home
    · rw [memory, Memory.thunk_setPhase] at forced
      split at forced
      · rename_i here
        obtain ⟨rfl, -⟩ := here
        rw [backed] at backed'
        cases backed'
        exact same w forced
      · exact old.forced w forced
    · rw [home] at held ⊢
      rw [show (l.setPhase t phase).scopeOf (l.memory.thunk q).home = l.scopeOf (l.memory.thunk q).home by
        rw [State.scopeOf, frame, State.scopeOf]]
      exact (old.ready (pending q waits) held).change (.refl W) (Nat.le_refl _) (fun _ _ _ => id) (fun _ _ _ => rfl)
        fun r _ x => by rw [State.get?, frame, State.get?]

/-- The memories of the two runs. -/
theorem heaps (h : Matched settings H W l) {s : State} (sober : s.Sober) (heap : Extends s.memory.arrays H) :
    W.Heaps s.memory l.memory where
  elements q r paired inside := by
    obtain ⟨vs, ws, old, new, related⟩ := h.stored.elements q r paired
    refine ⟨vs, ws, ?_, new, related⟩
    have found := Array.getElem?_eq_getElem inside
    rw [heap r _ found] at old
    rw [found, old]
  closed := sober.closed
  older := h.stored.older
  arrays i j x first second := Claimant.array.inj (h.unique (.array i) (.array j) (.array x) first second)
  closures i j x first second := Claimant.closure.inj (h.unique (.closure i) (.closure j) (.closure x) first second)

end Matched
end MiniC
