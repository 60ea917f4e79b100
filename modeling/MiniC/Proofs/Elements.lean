import MiniC.Proofs.Runs
import MiniC.Proofs.Ledger

/-!
# Kinds of elements

The storage of an array is shared by all that refers to it. An element that is stored is
fitted to the kind that the array has under the name by which the target of the assignment
names it, and is stored as it is if the target does not name the array. So the ledger of a run
accounts for every element of an array that a declarator has made: it fits the kind of the
declarator until it is stored to, and then it is what was stored last
(`Task.elements_respected`).
-/

namespace MiniC
variable {σ : Type}

/-! ## Accounts -/

namespace Note

/-- How an element was stored last since its array was made, if it was. -/
def lastStore? (r : ArrayRef) (i : Nat) : List Note → Option StoredElement
  | [] => none
  | made q _ :: rest => if q = r then none else lastStore? r i rest
  | stored e :: rest => if e.array = r ∧ e.index = i then some e else lastStore? r i rest

/-- An element is what was stored last, as far as it was fitted then; it fits the kind with
    which its array was made if nothing was stored. -/
def Explains (notes : List Note) (K : Kind) (r : ArrayRef) (i : Nat) (v : Value) : Prop :=
  match lastStore? r i notes with
  | none => v.Fits K
  | some e => e.value = v ∧ e.Fitted

/-- Notes account for the elements of the arrays that they tell of. -/
structure Accounts (notes : List Note) (m : Memory) : Prop where
  inside (r : ArrayRef) (K : Kind) : made r K ∈ notes → r.index < m.arrays.size
  elements (r : ArrayRef) (K : Kind) : made r K ∈ notes → ∀ (i : Nat) (v : Value), (m.elements r)[i]? = some v →
    Explains notes K r i v

namespace Accounts
variable {notes : List Note} {m m' : Memory}

theorem nil (m : Memory) : Accounts [] m := ⟨nofun, nofun⟩

theorem still (h : Accounts notes m) (arrays : m'.arrays = m.arrays) : Accounts notes m' := by
  have same (r : ArrayRef) : m'.elements r = m.elements r := by rw [Memory.elements, arrays, Memory.elements]
  refine ⟨fun r K known => ?_, fun r K known i v => ?_⟩
  · rw [arrays]
    exact h.inside r K known
  · rw [same]
    exact h.elements r K known i v

theorem newArray (h : Accounts notes m) (elements : Array Value) : Accounts notes (m.newArray elements).2 := by
  refine ⟨fun r K known => ?_, fun r K known i v => ?_⟩
  · have := h.inside r K known
    simp [Memory.newArray]
    omega
  · rw [Memory.elements_newArray, if_neg (Nat.ne_of_lt (h.inside r K known))]
    exact h.elements r K known i v

/-- An array has been made, and notes told of others before. -/
theorem made (h : Accounts notes m) {elements : Array Value} {kind : Kind} (fit : ∀ v ∈ elements, v.Fits kind) :
    Accounts (.made (m.newArray elements).1 kind :: notes) (m.newArray elements).2 := by
  have grown := h.newArray elements
  have fresh : (m.newArray elements).1.index = m.arrays.size := rfl
  refine ⟨fun r K known => ?_, fun r K known i v found => ?_⟩
  · obtain same | old := List.mem_cons.mp known
    · cases same
      simp [Memory.newArray]
    · exact grown.inside r K old
  · obtain same | old := List.mem_cons.mp known
    · cases same
      rw [Memory.elements_newArray, if_pos fresh] at found
      have nothing : lastStore? (m.newArray elements).1 i (.made (m.newArray elements).1 kind :: notes) = none := if_pos rfl
      rw [Explains, nothing]
      exact fit v (Array.mem_of_getElem? found)
    · have other : (m.newArray elements).1 ≠ r := by
        rintro rfl
        exact absurd (h.inside _ K old) (by rw [fresh]; exact Nat.lt_irrefl _)
      have before : lastStore? r i (.made (m.newArray elements).1 kind :: notes) = lastStore? r i notes := if_neg other
      rw [Explains, before]
      exact grown.elements r K old i v found

/-- An element has been stored. -/
theorem stored (h : Accounts notes m) {e : StoredElement} (fitted : e.Fitted) :
    Accounts (.stored e :: notes) (m.setElement e.array e.index e.value) := by
  have old {r : ArrayRef} {K : Kind} (known : .made r K ∈ .stored e :: notes) : .made r K ∈ notes :=
    (List.mem_cons.mp known).resolve_left nofun
  refine ⟨fun r K known => ?_, fun r K known i v found => ?_⟩
  · have := h.inside r K (old known)
    simpa [Memory.setElement] using this
  · by_cases here : e.array = r ∧ e.index = i
    · obtain ⟨rfl, rfl⟩ := here
      have last : lastStore? e.array e.index (.stored e :: notes) = some e := if_pos ⟨rfl, rfl⟩
      rw [Explains, last]
      rw [Memory.elements_setElement, Array.getElem?_setIfInBounds, if_pos rfl] at found
      split at found
      · cases found
        exact ⟨rfl, fitted⟩
      · cases found
    · have before : lastStore? r i (.stored e :: notes) = lastStore? r i notes := if_neg here
      rw [Explains, before]
      refine h.elements r K (old known) i v ?_
      by_cases same : r = e.array
      · have other : e.index ≠ i := fun index => here ⟨same.symm, index⟩
        subst same
        rwa [Memory.elements_setElement, Array.getElem?_setIfInBounds_ne other] at found
      · rwa [Memory.elements_setElement_of_ne same] at found

end Accounts
end Note

/-! ## Runs -/

/-- Notes account for the elements of arrays now and at each state that was shown, and these
    states are in the ledger. -/
structure Ledger.Sound (l : Ledger) (shown : List State) (m : Memory) : Prop where
  accounts : Note.Accounts l.notes m
  points : ∀ point ∈ l.points, Note.Accounts point.2 point.1.memory
  states : l.points.map (·.1) = shown

theorem Ledger.booking : Eval.Booking fun (w : σ × List State) l s => Ledger.Sound l w.2 s.memory where
  still h arrays := ⟨h.accounts.still arrays, h.points, h.states⟩
  newArray elements h := ⟨h.accounts.newArray elements, h.points, h.states⟩
  made fit h := ⟨h.accounts.made fit, h.points, h.states⟩
  stored fitted h := ⟨h.accounts.stored fitted, h.points, h.states⟩

theorem Ledger.books (o : Observer σ) : o.keeping.Carries (fun w l s => Sound l w.2 s.memory) o.keeping.booking :=
  fun _ l _ s h => ⟨l.suspend s, rfl, h.accounts, List.forall_mem_cons.mpr ⟨h.accounts, h.points⟩, congrArg (s :: ·) h.states⟩

/-- The ledger has the states that are shown while a task is run, and its notes account for the
    elements of arrays at each of them. -/
theorem Task.booked_accounts (t : Task) (s : State) :
    (t.booked s).map (·.1) = (t.run s).1 ∧ ∀ point ∈ t.booked s, Note.Accounts point.2 point.1.memory := by
  let ctx : Context (t.memory × List State) := ⟨t.settings, t.observer.keeping⟩
  have carried : Eval.Carries (fun w l s => Ledger.Sound l w.2 s.memory)
      (Eval.program ctx (Eval.visitor ctx t.fuel) t.program) (Eval.program ctx.booking (Eval.bookedVisitor ctx t.fuel) t.program) :=
    Ledger.booking.program (Ledger.books t.observer) t.fuel t.program
  obtain ⟨l, same, sound⟩ := carried s.beginEvaluation (t.watch, []) {} ⟨.nil _, List.forall_mem_nil _, rfl⟩
  have shown : (t.run s).1 = (Eval.runOn (Eval.program ctx (Eval.visitor ctx t.fuel) t.program)
      ⟨s.beginEvaluation, (t.watch, [])⟩).2.watch.2.reverse := by
    unfold run
    dsimp only
    rw [Eval.execute_eq]
  unfold booked
  dsimp only
  rw [same, shown]
  exact ⟨by rw [List.map_reverse, sound.states], fun point member => sound.points point (List.mem_reverse.mp member)⟩

/-- The elements of an array that a declarator has made fit the kind of the declarator, at every
    state that is shown while a task is run, from any state. Only an element that has been stored
    to may fail to, and only if the target of the last store did not name the array, or named it
    by a variable of another kind of elements, which the element fits then. The notes that tell
    of this are those of an evaluation that shows the same states; each declarator with a size
    that ends normally has noted the array to which it binds its name. -/
theorem Task.elements_respected (t : Task) (s : State) :
    (t.booked s).map (·.1) = (t.run s).1 ∧
    (∀ point ∈ t.booked s, ∀ (r : ArrayRef) (K : Kind), .made r K ∈ point.2 →
      ∀ (i : Nat) (v : Value), (point.1.memory.elements r)[i]? = some v → v.Fits K ∨
        ∃ e, Note.lastStore? r i point.2 = some e ∧ e.value = v ∧
          (e.target.arrayName? = none ∨ ∃ name b span, e.target.arrayName? = some name ∧
            e.start.lookup name span = .ok b ∧ b.kind.pointee ≠ K ∧ v.Fits b.kind.pointee)) ∧
    ∀ (inner : Visitor ((t.memory × List State) × Ledger)) (d : Declarator) (size : Node) (span : Option Span) m m',
      d.size = some size → Eval.runOn (inner.bookedDeclarator t.settings.strategy d span) m = (.ok (), m') →
        ∃ name K r notes, d.id.declared = .ok (name, K) ∧ m'.watch.2.notes = .made r K :: notes ∧
          ∃ s : State, m'.state = s.bind s.top name ⟨K.pointerTo, .array r⟩ := by
  obtain ⟨states, accounts⟩ := t.booked_accounts s
  refine ⟨states, fun point member r K known i v found => ?_, fun inner d size span m m' sized run => ?_⟩
  · have explained := (accounts point member).elements r K known i v found
    unfold Note.Explains at explained
    split at explained
    · exact .inl explained
    · rename_i e last
      obtain ⟨rfl, fitted⟩ := explained
      cases names : e.target.arrayName? with
      | none => exact .inr ⟨e, last, rfl, .inl names⟩
      | some name =>
        obtain ⟨b, span, bound, fits⟩ := fitted name names
        by_cases same : b.kind.pointee = K
        · exact .inl (same ▸ fits)
        · exact .inr ⟨e, last, rfl, .inr ⟨name, b, span, names, bound, same, fits⟩⟩
  · exact Visitor.bookedDeclarator_made sized run

/-- Whether a note tells that an array has been made, of elements of a kind. -/
def Note.tells (r : ArrayRef) (K : Kind) : Note → Bool
  | made q k => decide (q = r) && decide (k = K)
  | stored _ => false

theorem Note.made_mem_of_tells {notes : List Note} {r : ArrayRef} {K : Kind} (told : notes.any (tells r K) = true) :
    made r K ∈ notes := by
  obtain ⟨n, member, told⟩ := List.any_eq_true.mp told
  cases n with
  | made q k =>
    simp only [tells, Bool.and_eq_true, decide_eq_true_eq] at told
    obtain ⟨rfl, rfl⟩ := told
    exact member
  | stored e => cases told

/-- A fraction among whole numbers was stored last through an element of another array. The
    declarator of whole numbers has noted their array. -/
theorem Task.fraction_stored_unnamed :
    let whole : Declarator := { Tree.declarator "int" "a" none with size := some (Tree.num 2.0) }
    let t : Task := ⟨{}, .silent, (), 20, ⟨[Tree.declare [whole],
      Tree.arrayVar "int *" "m" (Tree.num 1.0) (some (Tree.array [Tree.ident "a"])),
      Tree.expr (Tree.assign .plain (Tree.index (Tree.ident "a") (Tree.num 0.0)) (Tree.num 2.5)),
      Tree.expr (Tree.assign .plain (Tree.index (Tree.index (Tree.ident "m") (Tree.num 0.0)) (Tree.num 0.0))
        (Tree.num 0.5))], none⟩⟩
    let declared := Eval.runOn ((Eval.bookedVisitor ⟨t.settings, t.observer.keeping⟩ t.fuel).bookedDeclarator
      t.settings.strategy whole none) ⟨.seeded, ((t.watch, []), {})⟩
    (∃ point ∈ t.booked .seeded, ∃ v e, .made ⟨0⟩ (.plain .int) ∈ point.2 ∧ (point.1.memory.elements ⟨0⟩)[0]? = some v ∧
      ¬ v.Fits (.plain .int) ∧ Note.lastStore? ⟨0⟩ 0 point.2 = some e ∧ e.value = v ∧ e.target.arrayName? = none) ∧
    declared.1 = .ok () ∧ ∃ r notes, declared.2.watch.2.notes = .made r (.plain .int) :: notes := by
  intro whole t declared
  constructor
  · have checked : (t.booked .seeded)[37]?.any (fun point => point.2.any (Note.tells ⟨0⟩ (.plain .int)) &&
        (point.1.memory.elements ⟨0⟩)[0]?.any (·.hasBits 0x3fe0000000000000) &&
        (Note.lastStore? ⟨0⟩ 0 point.2).all (·.target.arrayName?.isNone)) = true := by decide +kernel
    obtain ⟨point, at_point, checked⟩ := (Option.any_eq_true _ _).mp checked
    simp only [Bool.and_eq_true] at checked
    obtain ⟨⟨told, bits⟩, unnamed⟩ := checked
    obtain ⟨v, found, bits⟩ := (Option.any_eq_true _ _).mp bits
    have member := List.mem_of_getElem? at_point
    have made := Note.made_mem_of_tells told
    have unfit : ¬ v.Fits (.plain .int) := Value.not_fits_of_bits bits (by decide +kernel) (by decide +kernel) rfl
    obtain ⟨e, last, same, -⟩ := ((t.elements_respected .seeded).2.1 point member ⟨0⟩ (.plain .int) made 0 v found).resolve_left unfit
    rw [last] at unnamed
    exact ⟨point, member, v, e, made, found, unfit, last, same, Option.isNone_iff_eq_none.mp unnamed⟩
  · have done : declared.1 = .ok () := by decide +kernel
    obtain ⟨name, K, r, notes, named, noted, -⟩ := (t.elements_respected .seeded).2.2 _ whole (Tree.num 2.0) none _ declared.2 rfl
      (Prod.ext done rfl)
    have known : whole.id.declared = .ok ("a", .plain .int) := by decide +kernel
    cases known.symm.trans named
    exact ⟨done, r, notes, noted⟩

/-- Whether a name is bound globally to an array, as one of elements of a kind. -/
def State.showsArray (s : State) (name : String) (K : Kind) (r : ArrayRef) : Bool :=
  match s.get? .global name with
  | some ⟨k, .array q⟩ => decide (k = K.pointerTo) && decide (q = r)
  | _ => false

theorem State.get?_of_showsArray {s : State} {name : String} {K : Kind} {r : ArrayRef} (shows : s.showsArray name K r = true) :
    s.get? .global name = some ⟨K.pointerTo, .array r⟩ := by
  unfold showsArray at shows
  split at shows
  · rename_i k q found
    rw [Bool.and_eq_true, decide_eq_true_eq, decide_eq_true_eq] at shows
    rw [found, shows.1, shows.2]
  · cases shows

/-- A run declares an array of elements of a kind, and one of them does not fit the kind later. -/
def Program.Strays (p : Program) (settings : Settings) (fuel : Nat) (K : Kind) : Prop :=
  ∃ (i j : Nat) (s t u : State) (r : ArrayRef) (q : FrameRef) (name : String),
    (p.suspensions settings fuel)[i]? = some s ∧ (p.suspensions settings fuel)[i + 1]? = some t ∧
    (p.suspensions settings fuel)[j]? = some u ∧ i < j ∧ s.memory.arrays.size ≤ r.index ∧ q ∈ t.chain ∧
    t.get? q name = some ⟨K.pointerTo, .array r⟩ ∧ ∃ v ∈ u.memory.elements r, ¬ v.Fits K

/-- A fraction is stored in an array of whole numbers through an element of another array, and
    through a pointer of another kind. -/
theorem Program.fractions_stored :
    Program.Strays ⟨[Tree.arrayVar "int" "a" (Tree.num 2.0) none,
      Tree.arrayVar "int *" "m" (Tree.num 1.0) (some (Tree.array [Tree.ident "a"])),
      Tree.expr (Tree.assign .plain (Tree.index (Tree.index (Tree.ident "m") (Tree.num 0.0)) (Tree.num 0.0))
        (Tree.num 0.5))], none⟩ {} 20 (.plain .int) ∧
    Program.Strays ⟨[Tree.arrayVar "int" "a" (Tree.num 2.0) none, Tree.var "double *" "p" (some (Tree.ident "a")),
      Tree.expr (Tree.assign .plain (Tree.index (Tree.ident "p") (Tree.num 0.0)) (Tree.num 0.5))], none⟩ {} 20
      (.plain .int) := by
  have strays {p : Program} {j : Nat} (later : 3 < j)
      (early : (p.suspensions {} 20)[3]?.any (fun s => decide (s.memory.arrays.size ≤ 0)) = true)
      (bound : (p.suspensions {} 20)[4]?.any (fun t => t.showsArray "a" (.plain .int) ⟨0⟩) = true)
      (late : (p.suspensions {} 20)[j]?.any (fun u => (u.memory.elements ⟨0⟩).any fun v =>
        v.hasBits 0x3fe0000000000000) = true) :
      p.Strays {} 20 (.plain .int) := by
    obtain ⟨s, at_s, fresh⟩ := (Option.any_eq_true _ _).mp early
    obtain ⟨t, at_t, shows⟩ := (Option.any_eq_true _ _).mp bound
    obtain ⟨u, at_u, fraction⟩ := (Option.any_eq_true _ _).mp late
    obtain ⟨v, among, bits⟩ := Array.any_eq_true'.mp fraction
    refine ⟨3, j, s, t, u, ⟨0⟩, .global, "a", at_s, at_t, at_u, later, of_decide_eq_true fresh,
      List.mem_append_right _ List.mem_cons_self, State.get?_of_showsArray shows, v, among, ?_⟩
    exact Value.not_fits_of_bits bits (by decide +kernel) (by decide +kernel) rfl
  exact ⟨strays (j := 25) (by decide) (by decide +kernel) (by decide +kernel) (by decide +kernel),
    strays (j := 17) (by decide) (by decide +kernel) (by decide +kernel) (by decide +kernel)⟩

end MiniC
