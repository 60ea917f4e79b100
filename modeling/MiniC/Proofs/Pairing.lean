import Mathlib.Data.List.Forall2
import MiniC.Proofs.Evolution

/-!
# Values of a strict and a lazy run

When a strict and a lazy run of one program go along with each other, the lazy run makes
its arrays and functions in another order, and some of them never. A pairing says which
array and which function of the strict run each of the lazy run stands for, and which
evaluation of the strict run each thunk has put off. Related values cannot be told apart
by any operation of the language.
-/

namespace MiniC

/-- The evaluation of an initialiser by the strict run, which the lazy run has put off:
    where it started and ended, its result, and this fitted to the kind of the variable. -/
structure Backing where
  initial : Node
  kind : Kind
  fuel : Nat
  start : State
  finish : State
  result : Value
  value : Value

/-- For each array, function and thunk of a lazy run what it stands for in a strict run. -/
structure Pairing where
  arrays : List Nat
  closures : List Nat
  backings : List Backing

/-- An item of a list with one item more is an old one or the new one. -/
theorem getElem?_concat {α : Type} {xs : List α} {x y : α} {i : Nat} :
    (xs ++ [y])[i]? = some x ↔ xs[i]? = some x ∨ i = xs.length ∧ x = y := by
  rw [List.getElem?_append]
  split
  · rename_i inside
    exact ⟨.inl, fun h => h.resolve_right fun new => Nat.ne_of_lt inside new.1⟩
  · rename_i outside
    rw [List.getElem?_singleton, List.getElem?_eq_none (Nat.le_of_not_lt outside)]
    constructor
    · intro h
      split at h
      · cases h
        exact .inr ⟨by omega, rfl⟩
      · cases h
    · rintro (h | ⟨last, rfl⟩)
      · cases h
      · rw [if_pos (by omega)]

/-- Each item on the left is related to one on the right. -/
theorem exists_of_mem_left {α β : Type} {R : α → β → Prop} {xs : List α} {ys : List β} (h : List.Forall₂ R xs ys)
    {x : α} (member : x ∈ xs) : ∃ y ∈ ys, R x y := by
  induction h with
  | nil => cases member
  | cons head _ ih =>
    rcases List.mem_cons.mp member with rfl | member
    · exact ⟨_, List.mem_cons_self, head⟩
    · obtain ⟨y, among, related⟩ := ih member
      exact ⟨y, List.mem_cons_of_mem _ among, related⟩

/-- Each item on the right is related to one on the left. -/
theorem exists_of_mem_right {α β : Type} {R : α → β → Prop} {xs : List α} {ys : List β} (h : List.Forall₂ R xs ys)
    {y : β} (member : y ∈ ys) : ∃ x ∈ xs, R x y := by
  have turned : List.Forall₂ (flip R) ys xs := List.Forall₂.flip h
  exact exists_of_mem_left turned member

namespace Pairing

/-- What is paired stays so. -/
structure Grows (W W' : Pairing) : Prop where
  arrays (i r : Nat) : W.arrays[i]? = some r → W'.arrays[i]? = some r
  closures (i r : Nat) : W.closures[i]? = some r → W'.closures[i]? = some r
  backings (i : Nat) (b : Backing) : W.backings[i]? = some b → W'.backings[i]? = some b

/-- A plain value of the strict run and one of the lazy run. -/
inductive Same (W : Pairing) : Value → Value → Prop
  | void : Same W .void .void
  | number (x : Float) : Same W (.number x) (.number x)
  | bool (b : Bool) : Same W (.bool b) (.bool b)
  | closure {c d : Closure} (paired : W.closures[d.identity]? = some c.identity) (name : d.name = c.name)
      (params : d.params = c.params) (body : d.body = c.body) : Same W (.closure c) (.closure d)
  | builtin (f : Builtin) : Same W (.builtin f) (.builtin f)
  | array {r q : ArrayRef} (paired : W.arrays[q.index]? = some r.index) : Same W (.array r) (.array q)

/-- A value of the strict run and what the lazy run has for it: the same value, or a
    thunk whose initialiser the strict run had evaluated before so many steps. -/
inductive Bound (W : Pairing) (k : Nat) : Value → Value → Prop
  | plain {v w : Value} (same : W.Same v w) : Bound W k v w
  | put {t : ThunkRef} {b : Backing} (backed : W.backings[t.index]? = some b) (before : b.finish.steps < k) :
      Bound W k b.value (.lazy t)

/-- Bindings of one kind to such values. -/
def Binds (W : Pairing) (k : Nat) (b b' : Binding) : Prop := b.kind = b'.kind ∧ W.Bound k b.value b'.value

/-- Either both frames bind a name, and to such values, or none does. -/
inductive Agree (W : Pairing) (k : Nat) : Option Binding → Option Binding → Prop
  | free : Agree W k none none
  | bound {b b' : Binding} (h : W.Binds k b b') : Agree W k (some b) (some b')

namespace Grows
variable {W W' W'' : Pairing}

theorem refl (W : Pairing) : W.Grows W := ⟨fun _ _ => id, fun _ _ => id, fun _ _ => id⟩

theorem trans (h : W.Grows W') (h' : W'.Grows W'') : W.Grows W'' :=
  ⟨fun i r p => h'.arrays i r (h.arrays i r p), fun i r p => h'.closures i r (h.closures i r p),
    fun i b p => h'.backings i b (h.backings i b p)⟩

theorem array (W : Pairing) (i : Nat) : W.Grows { W with arrays := W.arrays ++ [i] } :=
  ⟨fun _ _ paired => getElem?_concat.mpr (.inl paired), fun _ _ => id, fun _ _ => id⟩

theorem closure (W : Pairing) (i : Nat) : W.Grows { W with closures := W.closures ++ [i] } :=
  ⟨fun _ _ => id, fun _ _ paired => getElem?_concat.mpr (.inl paired), fun _ _ => id⟩

theorem backing (W : Pairing) (b : Backing) : W.Grows { W with backings := W.backings ++ [b] } :=
  ⟨fun _ _ => id, fun _ _ => id, fun _ _ backed => getElem?_concat.mpr (.inl backed)⟩

/-- A thunk that was there before has the backing that it had. -/
theorem backed_before (h : W.Grows W') {i : Nat} {b : Backing} (inside : i < W.backings.length)
    (backed : W'.backings[i]? = some b) : W.backings[i]? = some b := by
  have found := List.getElem?_eq_getElem inside
  rw [h.backings i _ found] at backed
  rw [found, ← backed]

end Grows

variable {W W' : Pairing} {k k' : Nat} {v w : Value}

theorem Same.mono (h : W.Same v w) (grown : W.Grows W') : W'.Same v w := by
  cases h with
  | void => exact .void
  | number x => exact .number x
  | bool b => exact .bool b
  | closure paired name params body => exact .closure (grown.closures _ _ paired) name params body
  | builtin f => exact .builtin f
  | array paired => exact .array (grown.arrays _ _ paired)

theorem Bound.mono (h : W.Bound k v w) (grown : W.Grows W') (le : k ≤ k') : W'.Bound k' v w := by
  cases h with
  | plain same => exact .plain (same.mono grown)
  | put backed before => exact .put (grown.backings _ _ backed) (Nat.lt_of_lt_of_le before le)

theorem Agree.mono {o o' : Option Binding} (h : W.Agree k o o') (grown : W.Grows W') (le : k ≤ k') : W'.Agree k' o o' := by
  cases h with
  | free => exact .free
  | bound h => exact .bound ⟨h.1, h.2.mono grown le⟩

/-! ## Operations on related values -/

namespace Same

theorem plain_left (h : W.Same v w) : v.Plain := by cases h <;> rfl

theorem plain_right (h : W.Same v w) : w.Plain := by cases h <;> rfl

theorem type (h : W.Same v w) : w.type = v.type := by cases h <;> rfl

theorem truthy (h : W.Same v w) : w.truthy = v.truthy := by cases h <;> rfl

theorem toNumber? (h : W.Same v w) : w.toNumber? = v.toNumber? := by cases h <;> rfl

/-- Related values are fitted to a kind alike. -/
theorem cast {kind : Kind} {span : Option Span} {u : Value} (h : W.Same v w) (span' : Option Span)
    (fitted : v.cast kind span = .ok u) :
    ∃ u', w.cast kind span' = .ok u' ∧ W.Same u u' := by
  have again := Value.cast_span fitted span'
  unfold Value.cast at fitted
  cases h with
  | void => exact ⟨u, again, by grind [Same.void]⟩
  | number x => exact ⟨u, again, by grind [Same.number]⟩
  | bool b => exact ⟨u, again, by grind [Same.bool, Same.number]⟩
  | closure => simp only at fitted; split at fitted <;> cases fitted
  | builtin => simp only at fitted; split at fitted <;> cases fitted
  | @array r q paired =>
    simp only at fitted
    split at fitted
    · rename_i pointer
      cases fitted
      exact ⟨.array q, by unfold Value.cast; rw [if_pos pointer], .array paired⟩
    · cases fitted

theorem castResult {kind : Kind} {span : Option Span} {u : Value} (h : W.Same v w)
    (fitted : v.castResult kind span = .ok u) : ∃ u', w.castResult kind span = .ok u' ∧ W.Same u u' := by
  cases h with
  | void =>
    cases fitted
    exact ⟨.void, rfl, .void⟩
  | number x => exact cast (.number x) span fitted
  | bool b => exact cast (.bool b) span fitted
  | closure paired name params body => exact cast (.closure paired name params body) span fitted
  | builtin f => exact cast (.builtin f) span fitted
  | array paired => exact cast (.array paired) span fitted

theorem unary {op : UnaryOp} {span : Option Span} (h : W.Same v w) : op.apply w span = op.apply v span := by
  unfold UnaryOp.apply
  rw [h.toNumber?, h.truthy, h.type]

/-- Built-in functions cannot tell related arguments apart. -/
theorem call {f : Builtin} {vs ws : List Value} {span : Option Span} {result : Value × String}
    (related : List.Forall₂ W.Same vs ws) (applied : f.apply vs span = .ok result) : f.apply ws span = .ok result := by
  unfold Builtin.apply at applied ⊢
  rw [← related.length_eq]
  cases related with
  | nil => cases f <;> cases applied
  | @cons v w vs ws first rest =>
    cases rest with
    | cons => cases f <;> cases applied
    | nil =>
      have single : ∃ k, f.params = [k] := by cases f <;> exact ⟨_, rfl⟩
      obtain ⟨k, params⟩ := single
      rw [params] at applied ⊢
      cases fitted : v.cast k span with
      | error e =>
        simp only [List.zip_cons_cons, List.zip_nil_left, List.mapM_cons, fitted] at applied
        cases applied
      | ok u =>
        obtain ⟨u', fitted', same⟩ := first.cast span fitted
        have number : f.numberArgument [u'] = f.numberArgument [u] := by
          unfold Builtin.numberArgument
          simp only [same.toNumber?, same.type]
        have run : f.run [u'] = f.run [u] := by
          unfold Builtin.run
          rw [number]
        simp only [List.zip_cons_cons, List.zip_nil_left, List.mapM_cons, List.mapM_nil, fitted, fitted'] at applied ⊢
        rw [← applied]
        show (f.run [u'] >>= _) = (f.run [u] >>= _)
        rw [run]

end Same

/-! ## Equality -/

/-- No number is there twice. -/
def Distinct (xs : List Nat) : Prop := ∀ (i j x : Nat), xs[i]? = some x → xs[j]? = some x → i = j

/-- The memory of a strict run and that of a lazy one. Arrays that stand for each other
    have related elements, and no two stand for the same one. -/
structure Heaps (W : Pairing) (m m' : Memory) : Prop where
  elements (q r : Nat) : W.arrays[q]? = some r → r < m.arrays.size →
    ∃ vs ws, m.arrays[r]? = some vs ∧ m'.arrays[q]? = some ws ∧ List.Forall₂ W.Same vs.toList ws.toList
  closed : m.Closed
  older (q : Nat) (ws : Array Value) (r : ArrayRef) : m'.arrays[q]? = some ws → .array r ∈ ws → r.index < q
  arrays : Distinct W.arrays
  closures : Distinct W.closures

namespace Heaps
variable {m m' : Memory} (heaps : W.Heaps m m')
include heaps

theorem elements_of_same {r q : ArrayRef} (has : m.Has (.array r)) (h : W.Same (.array r) (.array q)) :
    List.Forall₂ W.Same (m.elements r).toList (m'.elements q).toList := by
  cases h with
  | array paired =>
    obtain ⟨vs, ws, old, new, same⟩ := heaps.elements _ _ paired (has.inside r rfl)
    simpa [Memory.elements, Array.getD_eq_getD_getElem?, old, new] using same

theorem length_of_same {r q : ArrayRef} (has : m.Has (.array r)) (h : W.Same (.array r) (.array q)) :
    m'.length q = m.length r := by
  have same := (heaps.elements_of_same has h).length_eq
  simpa [Memory.length] using same.symm

theorem element_of_same {r q : ArrayRef} (has : m.Has (.array r)) (h : W.Same (.array r) (.array q)) (i : Nat) :
    W.Same (m.element r i) (m'.element q i) := by
  obtain ⟨length, same⟩ := List.forall₂_iff_get.mp (heaps.elements_of_same has h)
  simp only [Array.length_toList] at length
  unfold Memory.element
  by_cases inside : i < (m.elements r).size
  · rw [Array.getD_eq_getD_getElem?, Array.getD_eq_getD_getElem?, Array.getElem?_eq_getElem inside,
      Array.getElem?_eq_getElem (length ▸ inside)]
    simpa using same i (by simpa using inside) (by simpa using length ▸ inside)
  · rw [Array.getD_eq_getD_getElem?, Array.getD_eq_getD_getElem?, Array.getElem?_eq_none (Nat.le_of_not_lt inside),
      Array.getElem?_eq_none (length ▸ Nat.le_of_not_lt inside)]
    exact .void

omit heaps in
/-- If the items of two lists compare alike whenever both comparisons have an answer, so do the lists. -/
theorem sameLists_agree {same? same?' : Value → Value → Option Bool}
    (items : ∀ v v' w w' a a', m.Has v → m.Has v' → W.Same v w → W.Same v' w' →
      same? v v' = some a → same?' w w' = some a' → a = a') :
    ∀ {vs vs' ws ws' : List Value} {a a' : Bool}, (∀ v ∈ vs, m.Has v) → (∀ v ∈ vs', m.Has v) →
      List.Forall₂ W.Same vs ws → List.Forall₂ W.Same vs' ws' →
      Memory.sameLists same? vs vs' = some a → Memory.sameLists same?' ws ws' = some a' → a = a' := by
  intro vs vs' ws ws' a a' has has' first second answer answer'
  induction first generalizing vs' ws' with
  | nil =>
    cases second with
    | nil =>
      cases answer
      cases answer'
      rfl
    | cons =>
      cases answer
      cases answer'
      rfl
  | @cons v w vs ws head rest ih =>
    cases second with
    | nil =>
      cases answer
      cases answer'
      rfl
    | @cons v' w' vs' ws' head' rest' =>
      unfold Memory.sameLists at answer answer'
      have agreed := fun b b' => items v v' w w' b b' (has v List.mem_cons_self) (has' v' List.mem_cons_self) head head'
      have further := ih (fun u member => has u (List.mem_cons_of_mem _ member))
        (fun u member => has' u (List.mem_cons_of_mem _ member)) rest'
      cases first : same? v v' with
      | none =>
        rw [first] at answer
        cases answer
      | some b =>
        cases second : same?' w w' with
        | none =>
          rw [second] at answer'
          cases answer'
        | some b' =>
          obtain rfl := agreed b b' first second
          rw [first] at answer
          rw [second] at answer'
          cases b with
          | true => exact further answer answer'
          | false =>
            cases answer
            cases answer'
            rfl

/-- Related values compare alike. -/
theorem sameWithin_agree : ∀ {fuel fuel' : Nat} {v v' w w' : Value} {a a' : Bool}, m.Has v → m.Has v' →
    W.Same v w → W.Same v' w' → m.sameWithin? fuel v v' = some a → m'.sameWithin? fuel' w w' = some a' → a = a' := by
  intro fuel
  induction fuel with
  | zero =>
    intro fuel' v v' w w' a a' has has' first second answer
    cases answer
  | succ fuel ih =>
    intro fuel' v v' w w' a a' has has' first second answer answer'
    cases fuel' with
    | zero => cases answer'
    | succ fuel' =>
      cases first with
      | @array r q paired =>
        cases second with
        | @array r' q' paired' =>
          have length := heaps.length_of_same has (.array paired)
          have length' := heaps.length_of_same has' (.array paired')
          have identical : q = q' ↔ r = r' := by
            constructor
            · rintro rfl
              obtain ⟨i⟩ := r
              obtain ⟨j⟩ := r'
              exact congrArg ArrayRef.mk (Option.some.inj (paired.symm.trans paired'))
            · rintro rfl
              obtain ⟨i⟩ := q
              obtain ⟨j⟩ := q'
              exact congrArg ArrayRef.mk (heaps.arrays _ _ _ paired paired')
          unfold Memory.sameWithin? at answer answer'
          simp only [length, length', identical] at answer answer'
          by_cases same : r = r'
          · rw [if_pos same] at answer answer'
            exact Option.some.inj (answer.symm.trans answer')
          · rw [if_neg same] at answer answer'
            by_cases other : m.length r ≠ m.length r'
            · rw [if_pos other] at answer answer'
              exact Option.some.inj (answer.symm.trans answer')
            · rw [if_neg other] at answer answer'
              exact sameLists_agree (fun _ _ _ _ _ _ => ih) (heaps.closed.elements r) (heaps.closed.elements r')
                (heaps.elements_of_same has (.array paired)) (heaps.elements_of_same has' (.array paired')) answer answer'
        | _ => exact Option.some.inj (answer.symm.trans answer')
      | @closure c d paired =>
        cases second with
        | @closure c' d' paired' =>
          have identical : (c.identity == c'.identity) = (d.identity == d'.identity) := by
            rw [Bool.eq_iff_iff, beq_iff_eq, beq_iff_eq]
            constructor
            · intro same
              rw [← same] at paired'
              exact heaps.closures _ _ _ paired paired'
            · intro same
              rw [← same] at paired'
              exact Option.some.inj (paired.symm.trans paired')
          unfold Memory.sameWithin? at answer answer'
          rw [identical] at answer
          exact Option.some.inj (answer.symm.trans answer')
        | _ => exact Option.some.inj (answer.symm.trans answer')
      | _ => cases second <;> exact Option.some.inj (answer.symm.trans answer')

omit heaps in
theorem sameLists_answered {same? : Value → Value → Option Bool} : ∀ {ws ws' : List Value},
    (∀ w ∈ ws, ∀ w', ∃ a, same? w w' = some a) → ∃ a, Memory.sameLists same? ws ws' = some a
  | [], [], _ => ⟨true, rfl⟩
  | [], _ :: _, _ => ⟨false, rfl⟩
  | _ :: _, [], _ => ⟨false, rfl⟩
  | w :: ws, w' :: ws', items => by
    obtain ⟨a, answer⟩ := items w List.mem_cons_self w'
    unfold Memory.sameLists
    rw [answer]
    cases a with
    | true => exact sameLists_answered fun u member => items u (List.mem_cons_of_mem _ member)
    | false => exact ⟨false, rfl⟩

/-- The arrays of a lazy run contain older ones only, so that comparing them has an end. -/
theorem answered : ∀ {fuel : Nat} (w w' : Value), 0 < fuel → (∀ q, w = .array q → q.index + 1 < fuel) →
    ∃ a, m'.sameWithin? fuel w w' = some a := by
  intro fuel
  induction fuel with
  | zero => exact fun _ _ positive => absurd positive (Nat.lt_irrefl 0)
  | succ fuel ih =>
    intro w w' _ enough
    cases w with
    | array q =>
      cases w' with
      | array q' =>
        have small := enough q rfl
        unfold Memory.sameWithin?
        split
        · exact ⟨_, rfl⟩
        · split
          · exact ⟨_, rfl⟩
          · refine sameLists_answered fun w member w' => ih w w' (by omega) fun p same => ?_
            rw [Array.mem_toList_iff, Memory.elements, Array.getD_eq_getD_getElem?] at member
            cases found : m'.arrays[q.index]? with
            | none =>
              rw [found] at member
              simp at member
            | some ws =>
              rw [found] at member
              have older := heaps.older _ _ p found (same ▸ member)
              omega
      | _ => exact ⟨_, rfl⟩
    | _ => cases w' <;> exact ⟨_, rfl⟩

theorem same?_agree {v v' w w' : Value} {a : Bool} (has : m.Has v) (has' : m.Has v') (first : W.Same v w)
    (second : W.Same v' w') (answer : m.same? v v' = some a) : m'.same? w w' = some a := by
  have enough : ∀ q, w = .array q → q.index + 1 < m'.arrays.size * m'.arrays.size + 1 := by
    rintro q rfl
    cases first with
    | array paired =>
      obtain ⟨-, ws, -, found, -⟩ := heaps.elements _ _ paired (has.inside _ rfl)
      have inside := (Array.getElem?_eq_some_iff.mp found).1
      have square := Nat.le_mul_self m'.arrays.size
      omega
  obtain ⟨a', answer'⟩ := heaps.answered w w' (Nat.succ_pos _) enough
  rw [Memory.same?, answer', heaps.sameWithin_agree has has' first second answer answer']

end Heaps

end Pairing
end MiniC
