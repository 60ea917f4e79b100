import Mathlib.Data.Fintype.Prod
import MiniC.Proofs.Termination

/-!
# Comparing values

Arrays are compared element by element, however they hang together. A comparison comes from a
pair of arrays to a pair of their elements (`Memory.Descends`), and it has no end just when it
comes back to a pair that it is about to compare (`Memory.Endless`). A way that is longer than
there are pairs of arrays does so, and therefore the bound of `Memory.same?` costs no answer
(`Memory.same?_eq_some`). Where one of the two values leads to no array that contains itself
there always is an answer (`Eval.equality_answers`); there is none for two arrays each of which
is its own element (`Task.self_containing_compared`).
-/

namespace MiniC
namespace Memory

/-! ## Lists -/

section lists
variable {same? same?' : Value → Value → Option Bool}

/-- Lists are compared up to the first two items that are not known to be the same. -/
theorem exists_of_sameLists_eq_none : ∀ {vs ws : List Value}, sameLists same? vs ws = none →
    ∃ (i : Nat) (v w : Value), vs[i]? = some v ∧ ws[i]? = some w ∧ same? v w = none ∧
      ∀ j < i, ∀ v w, vs[j]? = some v → ws[j]? = some w → same? v w = some true
  | v :: vs, w :: ws, unanswered => by
    unfold sameLists at unanswered
    cases first : same? v w with
    | none => exact ⟨0, v, w, rfl, rfl, first, fun j before => absurd before (Nat.not_lt_zero j)⟩
    | some b =>
      rw [first] at unanswered
      cases b with
      | false => cases unanswered
      | true =>
        obtain ⟨i, v', w', at_v, at_w, unknown, before⟩ := exists_of_sameLists_eq_none unanswered
        refine ⟨i + 1, v', w', at_v, at_w, unknown, fun j earlier x y at_x at_y => ?_⟩
        cases j with
        | zero =>
          cases at_x
          cases at_y
          exact first
        | succ j => exact before j (by omega) x y at_x at_y
  | [], [], unanswered => nomatch unanswered
  | [], _ :: _, unanswered => nomatch unanswered
  | _ :: _, [], unanswered => nomatch unanswered

/-- There is no answer for lists if there is none for two items, and none but "the same" before. -/
theorem sameLists_eq_none : ∀ {vs ws : List Value} {i : Nat} {v w : Value}, vs[i]? = some v → ws[i]? = some w →
    same? v w = none → (∀ j < i, ∀ v w, vs[j]? = some v → ws[j]? = some w → same? v w ≠ some false) →
    sameLists same? vs ws = none
  | v :: vs, w :: ws, i, x, y, at_x, at_y, unknown, before => by
    unfold sameLists
    cases i with
    | zero =>
      cases at_x
      cases at_y
      rw [unknown]
    | succ i =>
      cases first : same? v w with
      | none => rfl
      | some b =>
        cases b with
        | false => exact absurd first (before 0 (Nat.succ_pos i) v w rfl rfl)
        | true =>
          exact sameLists_eq_none at_x at_y unknown fun j earlier => before (j + 1) (Nat.succ_lt_succ earlier)
  | [], _, _, _, _, at_x, _, _, _ => nomatch at_x
  | _ :: _, [], _, _, _, _, at_y, _, _ => nomatch at_y

theorem sameLists_mono (more : ∀ v w b, same? v w = some b → same?' v w = some b) : ∀ {vs ws : List Value} {b : Bool},
    sameLists same? vs ws = some b → sameLists same?' vs ws = some b
  | [], [], _, answer => answer
  | [], _ :: _, _, answer => answer
  | _ :: _, [], _, answer => answer
  | v :: vs, w :: ws, b, answer => by
    unfold sameLists at answer ⊢
    cases first : same? v w with
    | none =>
      rw [first] at answer
      cases answer
    | some a =>
      rw [first] at answer
      rw [more v w a first]
      cases a with
      | false => exact answer
      | true => exact sameLists_mono more answer

end lists

/-! ## Descents -/

variable (m : Memory)

/-- From two arrays a comparison comes to two elements at one index, if all elements before
    have been found to be the same. -/
def Descends (p q : Value × Value) : Prop :=
  ∃ (r s : ArrayRef) (i : Nat), p = (.array r, .array s) ∧ r ≠ s ∧ m.length r = m.length s ∧
    (m.elements r).toList[i]? = some q.1 ∧ (m.elements s).toList[i]? = some q.2 ∧
    ∀ j < i, ∀ v w, (m.elements r).toList[j]? = some v → (m.elements s).toList[j]? = some w →
      ∃ fuel, m.sameWithin? fuel v w = some true

/-- The comparison of two values comes to a pair that it is about to compare already. -/
def Endless (v w : Value) : Prop :=
  ∃ p, Relation.ReflTransGen m.Descends (v, w) p ∧ Relation.TransGen m.Descends p p

/-- A value leads to an array that contains itself. -/
def LeadsToCycle (v : Value) : Prop := ∃ u, Relation.ReflTransGen m.Contains v u ∧ Relation.TransGen m.Contains u u

variable {m} {v w : Value} {p q : Value × Value} {b : Bool}

theorem sameWithin_arrays (fuel : Nat) (r s : ArrayRef) : m.sameWithin? (fuel + 1) (.array r) (.array s) =
    if r = s then some true
    else if m.length r ≠ m.length s then some false
    else sameLists (m.sameWithin? fuel) (m.elements r).toList (m.elements s).toList := rfl

theorem sameWithin_succ {fuel : Nat} (answer : m.sameWithin? fuel v w = some b) : m.sameWithin? (fuel + 1) v w = some b := by
  induction fuel generalizing v w b with
  | zero => cases answer
  | succ fuel ih =>
    cases v with
    | array r =>
      cases w with
      | array s =>
        rw [sameWithin_arrays] at answer ⊢
        by_cases one : r = s
        · rwa [if_pos one] at answer ⊢
        · rw [if_neg one] at answer ⊢
          by_cases apart : m.length r ≠ m.length s
          · rwa [if_pos apart] at answer ⊢
          · rw [if_neg apart] at answer ⊢
            exact sameLists_mono (fun v w b => ih) answer
      | _ => exact answer
    | _ => cases w <;> exact answer

/-- An answer stays, however much deeper the comparison may go. -/
theorem sameWithin_mono {fuel fuel' : Nat} (le : fuel ≤ fuel') (answer : m.sameWithin? fuel v w = some b) :
    m.sameWithin? fuel' v w = some b := by
  induction le with
  | refl => exact answer
  | step _ ih => exact sameWithin_succ ih

theorem sameWithin_unique {fuel fuel' : Nat} {b' : Bool} (answer : m.sameWithin? fuel v w = some b)
    (answer' : m.sameWithin? fuel' v w = some b') : b = b' := by
  have first := sameWithin_mono (Nat.le_max_left fuel fuel') answer
  have second := sameWithin_mono (Nat.le_max_right fuel fuel') answer'
  exact Option.some.inj (first.symm.trans second)

/-- Where no answer is found, there is a descent to two values for which none is found either. -/
theorem exists_descent {fuel : Nat} (unanswered : m.sameWithin? (fuel + 1) v w = none) :
    ∃ q, m.Descends (v, w) q ∧ m.sameWithin? fuel q.1 q.2 = none := by
  cases v with
  | array r =>
    cases w with
    | array s =>
      rw [sameWithin_arrays] at unanswered
      by_cases one : r = s
      · rw [if_pos one] at unanswered
        cases unanswered
      · rw [if_neg one] at unanswered
        by_cases apart : m.length r ≠ m.length s
        · rw [if_pos apart] at unanswered
          cases unanswered
        · rw [if_neg apart] at unanswered
          obtain ⟨i, v, w, at_v, at_w, unknown, before⟩ := exists_of_sameLists_eq_none unanswered
          refine ⟨(v, w), ⟨r, s, i, rfl, one, not_not.mp apart, at_v, at_w, fun j earlier x y at_x at_y => ?_⟩, unknown⟩
          exact ⟨fuel, before j earlier x y at_x at_y⟩
    | _ => cases unanswered
  | _ => cases w <;> cases unanswered

/-- A descent to two values for which no answer is found finds none. -/
theorem Descends.unanswered {fuel : Nat} (h : m.Descends p q) (deeper : m.sameWithin? fuel q.1 q.2 = none) :
    m.sameWithin? (fuel + 1) p.1 p.2 = none := by
  obtain ⟨r, s, i, rfl, other, same, at_v, at_w, before⟩ := h
  rw [sameWithin_arrays, if_neg other, if_neg (not_not.mpr same)]
  refine sameLists_eq_none at_v at_w deeper fun j earlier x y at_x at_y differ => ?_
  obtain ⟨fuel', answer⟩ := before j earlier x y at_x at_y
  cases sameWithin_unique answer differ

theorem Descends.contains (h : m.Descends p q) : m.Contains p.1 q.1 ∧ m.Contains p.2 q.2 := by
  obtain ⟨r, s, i, rfl, -, -, at_v, at_w, -⟩ := h
  exact ⟨⟨r, rfl, Array.mem_toList_iff.mp (List.mem_of_getElem? at_v)⟩,
    ⟨s, rfl, Array.mem_toList_iff.mp (List.mem_of_getElem? at_w)⟩⟩

/-- Descents go on from arrays that exist. -/
theorem Descends.arrays (h : m.Descends p q) : ∃ i j : Fin m.arrays.size, p = (.array ⟨i⟩, .array ⟨j⟩) := by
  have exist {r : ArrayRef} {i : Nat} {v : Value} (found : (m.elements r).toList[i]? = some v) : r.index < m.arrays.size :=
    lt_of_mem_elements (Array.mem_toList_iff.mp (List.mem_of_getElem? found))
  obtain ⟨r, s, i, rfl, -, -, at_v, at_w, -⟩ := h
  exact ⟨⟨r.index, exist at_v⟩, ⟨s.index, exist at_w⟩, rfl⟩

/-! ## Comparisons without end -/

/-- An endless comparison finds no answer at any depth. -/
theorem Endless.unanswered (h : m.Endless v w) (fuel : Nat) : m.sameWithin? fuel v w = none := by
  induction fuel generalizing v w with
  | zero => rfl
  | succ fuel ih =>
    obtain ⟨q, next, deeper⟩ := LeadsBack.next h
    exact next.unanswered (ih deeper)

/-- More descents than there are pairs of arrays come back to some pair. -/
theorem endless_of_unanswered {fuel : Nat} (deep : m.arrays.size * m.arrays.size < fuel)
    (unanswered : m.sameWithin? fuel v w = none) : m.Endless v w := by
  obtain ⟨f, first, descents⟩ : ∃ f : Nat → Value × Value, f 0 = (v, w) ∧ ∀ i < fuel, m.Descends (f i) (f (i + 1)) :=
    exists_descents (fun fuel p => m.sameWithin? fuel p.1 p.2 = none) exists_descent unanswered
  have named {p q : Value × Value} (h : m.Descends p q) :
      ∃ i : Fin m.arrays.size × Fin m.arrays.size, p = (.array ⟨i.1⟩, .array ⟨i.2⟩) := by
    obtain ⟨i, j, arrays⟩ := h.arrays
    exact ⟨(i, j), arrays⟩
  have back : LeadsBack m.Descends (f 0) := leadsBack_of_descents named (by simpa using deep) descents
  rwa [first] at back

theorem same?_eq_none : m.same? v w = none ↔ m.Endless v w :=
  ⟨endless_of_unanswered (Nat.lt_succ_self _), fun h => h.unanswered _⟩

/-- The comparison answers what it does at any depth. -/
theorem same?_eq_some : m.same? v w = some b ↔ ∃ fuel, m.sameWithin? fuel v w = some b := by
  refine ⟨fun answer => ⟨_, answer⟩, fun ⟨fuel, answer⟩ => ?_⟩
  cases found : m.same? v w with
  | none =>
    have unanswered := (same?_eq_none.mp found).unanswered fuel
    cases answer.symm.trans unanswered
  | some a => rw [sameWithin_unique found answer]

/-- Both values lead to an array that contains itself. -/
theorem Endless.cycles (h : m.Endless v w) : m.LeadsToCycle v ∧ m.LeadsToCycle w := by
  obtain ⟨p, reaches, again⟩ := h
  exact ⟨⟨p.1, reaches.lift Prod.fst fun _ _ d => d.contains.1, again.lift Prod.fst fun _ _ d => d.contains.1⟩,
    ⟨p.2, reaches.lift Prod.snd fun _ _ d => d.contains.2, again.lift Prod.snd fun _ _ d => d.contains.2⟩⟩

end Memory

/-! ## Equality -/

namespace Eval
variable {σ : Type}

/-- Equality is decided as the comparison of the two values decides it, numbers apart. -/
theorem runOn_equality (v w : Value) (span : Option Span) (m : Machine σ) :
    if m.state.memory.same? v w = none then
      runOn (applyBinary .eq v w span) m = (.error .endlessComparison, m) ∧
        runOn (applyBinary .ne v w span) m = (.error .endlessComparison, m)
    else ∃ b, runOn (applyBinary .eq v w span) m = (.ok (.bool b), m) ∧
      runOn (applyBinary .ne v w span) m = (.ok (.bool !b), m) := by
  by_cases numbers : ∃ x y, v.toNumber? = some x ∧ w.toNumber? = some y
  · obtain ⟨x, y, left, right⟩ := numbers
    -- Numbers have an answer without a look at the memory.
    have answered : m.state.memory.same? v w ≠ none := by
      cases v <;> cases left <;> cases w <;> cases right <;> nofun
    rw [if_neg answered]
    refine ⟨x == y, ?_, ?_⟩ <;> rw [applyBinary, left, right] <;> rfl
  · have equal : applyBinary .eq v w span = sameValues v w >>= fun b => (pure (.bool b) : Eval σ Value) := by
      rw [applyBinary]
      split
      · exact absurd ⟨_, _, ‹_›, ‹_›⟩ numbers
      · rfl
    have unequal : applyBinary .ne v w span = sameValues v w >>= fun b => (pure (.bool !b) : Eval σ Value) := by
      rw [applyBinary]
      split
      · exact absurd ⟨_, _, ‹_›, ‹_›⟩ numbers
      · rfl
    rw [equal, unequal, runOn_bind, runOn_bind, sameValues, runOn_state_bind]
    cases m.state.memory.same? v w with
    | none => exact ⟨rfl, rfl⟩
    | some b => exact ⟨b, rfl, rfl⟩

/-- A binary expression completes with what its operator makes of its operands. -/
theorem runOn_binary (settings : Settings) {inner : Visitor σ} {op : BinaryOp} {left right : Node} {span : Option Span}
    (tag : FrameTag) {v w u : Value} {m₀ m₁ m₂ m₃ : Machine σ} (first : runOn (inner.actual left) m₀ = (.ok v, m₁))
    (second : runOn (inner.actual right) m₁ = (.ok w, m₂)) (applied : runOn (applyBinary op v w span) m₂ = (.ok u, m₃)) :
    runOn (byForm settings inner ⟨.binary op left right, span⟩ tag) m₀ = (.ok (.normal u), m₃) := by
  show runOn (inner.actual left >>= fun v => inner.actual right >>= fun w => applyBinary op v w span >>= fun u =>
    pure (Completion.normal u)) m₀ = _
  rw [runOn_bind, first]
  dsimp only
  rw [runOn_bind, second]
  dsimp only
  rw [runOn_bind, applied]
  rfl

/-- Two values are compared with a truth value as the answer, and `!=` gives the other one, just
    when the comparison does not come back to a pair that it is about to compare. It comes back
    only where both values lead to an array that contains itself, and then there is no answer
    at any depth. So equality is decided for the values of all operands of which one leads to no
    such array. -/
theorem equality_answers (settings : Settings) (inner : Visitor σ) (v w : Value) (span : Option Span) (m : Machine σ) :
    ((∃ b, runOn (applyBinary .eq v w span) m = (.ok (.bool b), m) ∧
      runOn (applyBinary .ne v w span) m = (.ok (.bool !b), m)) ↔ ¬ m.state.memory.Endless v w) ∧
    (m.state.memory.Endless v w → m.state.memory.LeadsToCycle v ∧ m.state.memory.LeadsToCycle w) ∧
    (m.state.memory.Endless v w ↔ ∀ fuel, m.state.memory.sameWithin? fuel v w = none) ∧
    (∀ b, m.state.memory.same? v w = some b ↔ ∃ fuel, m.state.memory.sameWithin? fuel v w = some b) ∧
    ∀ (left right : Node) (tag : FrameTag) (m₀ m₁ : Machine σ), runOn (inner.actual left) m₀ = (.ok v, m₁) →
      runOn (inner.actual right) m₁ = (.ok w, m) → ¬ m.state.memory.Endless v w →
      ∃ b, runOn (byForm settings inner ⟨.binary .eq left right, span⟩ tag) m₀ = (.ok (.normal (.bool b)), m) ∧
        runOn (byForm settings inner ⟨.binary .ne left right, span⟩ tag) m₀ = (.ok (.normal (.bool !b)), m) := by
  have answers : (∃ b, runOn (applyBinary .eq v w span) m = (.ok (.bool b), m) ∧
      runOn (applyBinary .ne v w span) m = (.ok (.bool !b), m)) ↔ ¬ m.state.memory.Endless v w := by
    have decided := runOn_equality v w span m
    rw [← Memory.same?_eq_none]
    split at decided
    · rename_i unanswered
      refine ⟨fun ⟨b, answer, _⟩ => ?_, fun answered => absurd unanswered answered⟩
      cases answer.symm.trans decided.1
    · rename_i answered
      exact ⟨fun _ => answered, fun _ => decided⟩
  refine ⟨answers, Memory.Endless.cycles, ⟨fun h => h.unanswered, fun unanswered => Memory.same?_eq_none.mp (unanswered _)⟩,
    fun b => Memory.same?_eq_some, fun left right tag m₀ m₁ first second ends => ?_⟩
  obtain ⟨b, equal, unequal⟩ := answers.mpr ends
  exact ⟨b, runOn_binary settings tag first second equal, runOn_binary settings tag first second unequal⟩

end Eval

/-- Two arrays of a function each of which is its own element are compared: no depth has an
    answer for them, and the run ends with that. -/
theorem Task.self_containing_compared :
    let itself (name : String) := Tree.expr (Tree.assign .plain (Tree.index (Tree.ident name) (Tree.num 0.0)) (Tree.ident name))
    let f := Tree.func "int" "f" [] [Tree.arrayVar "int *" "a" (Tree.num 1.0) none, Tree.arrayVar "int *" "b" (Tree.num 1.0) none,
      itself "a", itself "b", Tree.expr (Tree.bin .eq (Tree.ident "a") (Tree.ident "b")),
      Tree.bare (.returnValue (some (Tree.num 1.0)))]
    let t : Task := ⟨{}, .silent, (), 20, ⟨[f, Tree.expr (Tree.call "f" [])], none⟩⟩
    t.result .seeded = .error .endlessComparison ∧
      ∃ v w, ∀ fuel, (t.run .seeded).2.memory.sameWithin? fuel v w = none := by
  intro itself f t
  have endless : t.result .seeded = .error .endlessComparison := by decide +kernel
  obtain ⟨v, w, unanswered⟩ := t.due .seeded _ endless
  exact ⟨endless, v, w, (Memory.same?_eq_none.mp unanswered).unanswered⟩

end MiniC
