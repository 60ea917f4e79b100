import Mathlib.Data.Fintype.Sum
import MiniC.Eval.Force
import MiniC.Proofs.Descent

/-!
# Texts without end

The text of an array holds those of its elements, and the text of a thunk that of the value to
which it was computed. So a text has no end just when a way down from the value comes back to
where it was, through an array or a thunk that contains itself: there is no text then within
any bound, and there is one in all other cases. This is so of the text that a value shows
(`Memory.show?_eq_none`) and of its outline (`Memory.outline?_eq_none`).
-/

namespace MiniC

/-- Some item yields nothing if the list does not. -/
theorem mapM_eq_none {α β : Type} {f : α → Option β} {items : List α} : items.mapM f = none ↔ ∃ a ∈ items, f a = none := by
  induction items with
  | nil => simp
  | cons a rest ih =>
    cases first : f a with
    | none => simp [List.mapM_cons, first]
    | some b => cases others : rest.mapM f <;> simp_all [List.mapM_cons]

namespace Memory

/-- The text of a value holds that of another. -/
inductive Shows (m : Memory) : Value → Value → Prop
  | element {r : ArrayRef} {v : Value} (member : v ∈ m.elements r) : Shows m (.array r) v
  | memo {t : ThunkRef} {v : Value} (computed : m.thunks[t.index]?.bind Thunk.memo? = some v) : Shows m (.lazy t) v

/-- An array contains its elements. -/
def Contains (m : Memory) (v u : Value) : Prop := ∃ r, v = .array r ∧ u ∈ m.elements r

/-- Some array contains itself. -/
def Circular (m : Memory) : Prop := ∃ r, Relation.TransGen m.Contains (.array r) (.array r)

/-- The text of a value has no end. -/
def Unending (m : Memory) (v : Value) : Prop := LeadsBack m.Shows v

variable {m m' : Memory} {v : Value}

/-- A thunk that does not exist counts as computed to nothing. -/
theorem memo?_thunk {t : ThunkRef} : (m.thunk t).memo? = some v ↔
    m.thunks[t.index]?.bind Thunk.memo? = some v ∨ (m.thunks[t.index]? = none ∧ v = .void) := by
  unfold thunk
  rw [Array.getD_eq_getD_getElem?]
  cases m.thunks[t.index]? with
  | none => simp [default, Thunk.memo?, eq_comm]
  | some u => simp

/-- Only arrays that exist have elements. -/
theorem lt_of_mem_elements {r : ArrayRef} (member : v ∈ m.elements r) : r.index < m.arrays.size := by
  by_contra outside
  have empty : m.elements r = #[] := by simp [elements, Array.getD_eq_getD_getElem?, outside]
  rw [empty] at member
  cases Array.not_mem_empty v member

/-- Only arrays and thunks that exist hold a text. -/
theorem Shows.named {u : Value} (h : m.Shows v u) :
    ∃ i : Fin m.arrays.size ⊕ Fin m.thunks.size, v = i.elim (.array ⟨·⟩) (.lazy ⟨·⟩) := by
  cases h with
  | @element r _ member => exact ⟨.inl ⟨r.index, lt_of_mem_elements member⟩, rfl⟩
  | @memo t _ computed =>
    have exist : t.index < m.thunks.size := by
      by_contra outside
      rw [Array.getElem?_eq_none (Nat.le_of_not_lt outside)] at computed
      cases computed
    exact ⟨.inr ⟨t.index, exist⟩, rfl⟩

/-- Which texts have an end depends on the arrays and on what thunks have been computed to. -/
theorem unending_congr (arrays : m'.arrays = m.arrays)
    (memos : ∀ i : Nat, m'.thunks[i]?.bind Thunk.memo? = m.thunks[i]?.bind Thunk.memo?) : m'.Unending v ↔ m.Unending v := by
  have same : m'.Shows = m.Shows := by
    funext v u
    refine propext ⟨fun h => ?_, fun h => ?_⟩
    · cases h with
      | element member => exact .element (by rwa [elements, ← arrays])
      | memo computed => exact .memo (by rwa [← memos])
    · cases h with
      | element member => exact .element (by rwa [elements, arrays])
      | memo computed => exact .memo (by rwa [memos])
  unfold Unending
  rw [same]

/-- Where arrays and thunks hold no thunks, a text without an end shows an array that contains
    itself. -/
theorem Unending.circular (h : m.Unending v) (arrays : ∀ r, ∀ u ∈ m.elements r, u.isLazy = false)
    (memos : ∀ t u, (m.thunk t).memo? = some u → u.isLazy = false) : m.Circular := by
  have shown {v u : Value} (h : m.Shows v u) : u.isLazy = false := by
    cases h with
    | element member => exact arrays _ _ member
    | memo computed => exact memos _ _ (memo?_thunk.mpr (.inl computed))
  have contained {v u : Value} (plain : v.isLazy = false) (h : m.Shows v u) : m.Contains v u := by
    cases h with
    | element member => exact ⟨_, rfl, member⟩
    | memo computed => cases plain
  obtain ⟨u, -, again⟩ := h
  have plain : u.isLazy = false := by
    obtain ⟨w, -, last⟩ := Relation.TransGen.tail'_iff.mp again
    exact shown last
  have around {w : Value} (h : Relation.TransGen m.Shows u w) : Relation.TransGen m.Contains u w := by
    induction h with
    | single first => exact .single (contained plain first)
    | tail before last ih =>
      obtain ⟨w, -, next⟩ := Relation.TransGen.tail'_iff.mp before
      exact ih.tail (contained (shown next) last)
  obtain ⟨w, ⟨r, rfl, -⟩, -⟩ := Relation.TransGen.head'_iff.mp (around again)
  exact ⟨r, around again⟩

/-! ## What a value shows -/

theorem showWithin?_array {fuel : Nat} {r : ArrayRef} :
    m.showWithin? (fuel + 1) (.array r) = none ↔ ∃ v ∈ m.elements r, m.showWithin? fuel v = none := by
  simp only [← Array.mem_toList_iff, ← mapM_eq_none]
  unfold showWithin?
  cases (m.elements r).toList.mapM (m.showWithin? fuel) <;> simp

/-- Where no text is found, there is none for something that is shown in it. -/
theorem exists_shows {fuel : Nat} (unfound : m.showWithin? (fuel + 1) v = none) :
    ∃ u, m.Shows v u ∧ m.showWithin? fuel u = none := by
  cases v with
  | array r =>
    obtain ⟨u, member, deeper⟩ := showWithin?_array.mp unfound
    exact ⟨u, .element member, deeper⟩
  | lazy t =>
    unfold showWithin? at unfound
    cases computed : (m.thunk t).memo? with
    | none =>
      rw [computed] at unfound
      cases unfound
    | some u =>
      rw [computed] at unfound
      rcases memo?_thunk.mp computed with found | ⟨-, rfl⟩
      · exact ⟨u, .memo found, unfound⟩
      · cases fuel <;> cases unfound
  | _ => cases unfound

/-- A text without an end is not found within any bound. -/
theorem Unending.unshown (h : m.Unending v) (fuel : Nat) : m.showWithin? fuel v = none := by
  induction fuel generalizing v with
  | zero =>
    obtain ⟨u, shows, -⟩ := h.next
    cases shows <;> rfl
  | succ fuel ih =>
    obtain ⟨u, shows, deeper⟩ := h.next
    cases shows with
    | element member => exact showWithin?_array.mpr ⟨u, member, ih deeper⟩
    | memo computed =>
      unfold showWithin?
      rw [memo?_thunk.mpr (.inl computed)]
      exact ih deeper

theorem show?_eq_none : m.show? v = none ↔ m.Unending v := by
  refine ⟨fun unfound => ?_, fun h => h.unshown _⟩
  obtain ⟨f, rfl, descents⟩ := exists_descents (m.showWithin? · · = none) exists_shows unfound
  exact leadsBack_of_descents Shows.named (by simp) descents

/-! ## What a value is outlined as -/

theorem outlineWithin?_array {fuel : Nat} {r : ArrayRef} :
    m.outlineWithin? (fuel + 1) (.array r) = none ↔ ∃ v ∈ m.elements r, m.outlineWithin? fuel v = none := by
  simp only [← Array.mem_toList_iff, ← mapM_eq_none]
  unfold outlineWithin?
  cases (m.elements r).toList.mapM (m.outlineWithin? fuel) <;> simp

/-- The outline of a thunk ends with what the thunk shows. -/
theorem outlineWithin?_lazy {fuel : Nat} {t : ThunkRef} :
    m.outlineWithin? fuel (.lazy t) = none ↔ ∃ v, (m.thunk t).memo? = some v ∧ m.Unending v := by
  have outlined : m.outlineWithin? fuel (.lazy t) = none ↔ m.thunkOutline? (m.thunk t) = none := by
    unfold outlineWithin?
    cases m.thunkOutline? (m.thunk t) <;> simp
  rw [outlined]
  unfold thunkOutline? Thunk.memo?
  cases (m.thunk t).phase with
  | forced v =>
    simp only [← show?_eq_none, Option.some.injEq, exists_eq_left']
    cases m.show? v <;> simp
  | _ => simp

theorem Unending.unoutlined (h : m.Unending v) (fuel : Nat) : m.outlineWithin? fuel v = none := by
  induction fuel generalizing v with
  | zero =>
    obtain ⟨u, shows, deeper⟩ := h.next
    cases shows with
    | element member => rfl
    | memo computed => exact outlineWithin?_lazy.mpr ⟨u, memo?_thunk.mpr (.inl computed), deeper⟩
  | succ fuel ih =>
    obtain ⟨u, shows, deeper⟩ := h.next
    cases shows with
    | element member => exact outlineWithin?_array.mpr ⟨u, member, ih deeper⟩
    | memo computed => exact outlineWithin?_lazy.mpr ⟨u, memo?_thunk.mpr (.inl computed), deeper⟩

/-- Where no outline is found, a text has no end or there is no outline for an element. -/
theorem exists_element {fuel : Nat} (unfound : m.outlineWithin? (fuel + 1) v = none) (ends : ¬ m.Unending v) :
    ∃ r u, v = .array r ∧ m.Shows v u ∧ m.outlineWithin? fuel u = none := by
  cases v with
  | array r =>
    obtain ⟨u, member, deeper⟩ := outlineWithin?_array.mp unfound
    exact ⟨r, u, rfl, .element member, deeper⟩
  | lazy t =>
    obtain ⟨u, computed, deeper⟩ := outlineWithin?_lazy.mp unfound
    rcases memo?_thunk.mp computed with found | ⟨-, rfl⟩
    · exact absurd (deeper.head (.memo found)) ends
    · obtain ⟨_, shows, -⟩ := deeper.next
      cases shows
  | _ => cases unfound

theorem outline?_eq_none : m.outline? v = none ↔ m.Unending v := by
  refine ⟨fun unfound => ?_, fun h => h.unoutlined _⟩
  by_contra ends
  -- a thunk that is met shows a text with an end, so the way down goes through arrays alone
  let down (v u : Value) : Prop := m.Shows v u ∧ ∃ r, v = .array r
  obtain ⟨f, rfl, descents⟩ := exists_descents (D := down) (fun fuel v => m.outlineWithin? fuel v = none ∧ ¬ m.Unending v)
    (fun {fuel v} h => by
      obtain ⟨r, u, is, shows, deeper⟩ := exists_element h.1 h.2
      exact ⟨u, ⟨shows, r, is⟩, deeper, fun h' => h.2 (h'.head shows)⟩) ⟨unfound, ends⟩
  have named {v u : Value} (h : down v u) : ∃ i : Fin m.arrays.size, v = .array ⟨i⟩ := by
    obtain ⟨shows, r, rfl⟩ := h
    obtain ⟨i | i, is⟩ := shows.named
    · exact ⟨i, is⟩
    · cases is
  exact ends ((leadsBack_of_descents named (by simp) descents).mono fun _ _ => And.left)

end Memory

namespace Completion
variable {m : Memory} {c : Completion}

theorem outline?_eq_none : c.outline? m = none ↔ ∃ v, (c = .normal v ∨ c = .returned v) ∧ m.Unending v := by
  cases c with
  | normal v => simp [outline?, Memory.outline?_eq_none]
  | returned v => simp [outline?, Memory.outline?_eq_none]
  | jump j span => cases j <;> simp [outline?]

/-- A completion that should have been a value is told of, or its text has no end. -/
theorem stray_cases (c : Completion) (label : Label) (m : Memory) :
    (∃ shown, c.outline? m = some shown ∧ c.stray label m = .error (.invariant (.strayCompletion label shown))) ∨
    (c.outline? m = none ∧ c.stray label m = .endlessText) := by
  unfold stray
  cases c.outline? m with
  | none => exact .inr ⟨rfl, rfl⟩
  | some shown => exact .inl ⟨shown, rfl, rfl⟩

end Completion
end MiniC
