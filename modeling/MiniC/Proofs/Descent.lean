import Mathlib.Data.Fintype.Pigeonhole
import Mathlib.Logic.Relation

/-!
# Descents without end

A search that goes from one thing down to another, and stops at a bound, has gone as deep as
the bound allows wherever it finds nothing (`exists_descents`). If it can only go on from
finitely many things, a way that is longer comes back to where it was
(`leadsBack_of_descents`).
-/

namespace MiniC
variable {α ι : Type} {D : α → α → Prop} {a b : α}

/-- Some way down comes back to where it was. -/
def LeadsBack (D : α → α → Prop) (a : α) : Prop := ∃ b, Relation.ReflTransGen D a b ∧ Relation.TransGen D b b

theorem LeadsBack.head (first : D a b) (h : LeadsBack D b) : LeadsBack D a := by
  obtain ⟨c, reaches, again⟩ := h
  exact ⟨c, reaches.head first, again⟩

/-- There is a next thing on that way, also if it is the one that comes again. -/
theorem LeadsBack.next (h : LeadsBack D a) : ∃ b, D a b ∧ LeadsBack D b := by
  obtain ⟨c, reaches, again⟩ := h
  rcases Relation.ReflTransGen.cases_head reaches with rfl | ⟨b, first, onward⟩
  · obtain ⟨b, first, onward⟩ := Relation.TransGen.head'_iff.mp again
    exact ⟨b, first, a, onward, again⟩
  · exact ⟨b, first, c, onward, again⟩

theorem LeadsBack.mono {D' : α → α → Prop} (weaker : ∀ a b, D a b → D' a b) (h : LeadsBack D a) : LeadsBack D' a := by
  obtain ⟨c, reaches, again⟩ := h
  exact ⟨c, reaches.lift id weaker, again.lift id weaker⟩

/-- What is not found within a bound is sought on a way as long as the bound. -/
theorem exists_descents (Unfound : Nat → α → Prop) (step : ∀ {fuel a}, Unfound (fuel + 1) a → ∃ b, D a b ∧ Unfound fuel b)
    {fuel : Nat} (unfound : Unfound fuel a) : ∃ f : Nat → α, f 0 = a ∧ ∀ i < fuel, D (f i) (f (i + 1)) := by
  induction fuel generalizing a with
  | zero => exact ⟨fun _ => a, rfl, fun i small => absurd small (Nat.not_lt_zero i)⟩
  | succ fuel ih =>
    obtain ⟨b, next, deeper⟩ := step unfound
    obtain ⟨f, first, descents⟩ := ih deeper
    refine ⟨fun i => Nat.casesOn i a f, rfl, fun i small => ?_⟩
    cases i with
    | zero =>
      show D a (f 0)
      rwa [first]
    | succ i => exact descents i (by omega)

/-- A way longer than there are things from which it goes on comes back to some of them. -/
theorem leadsBack_of_descents [Fintype ι] {name : ι → α} (named : ∀ {a b}, D a b → ∃ i, a = name i) {fuel : Nat}
    (deep : Fintype.card ι < fuel) {f : Nat → α} (descents : ∀ i < fuel, D (f i) (f (i + 1))) : LeadsBack D (f 0) := by
  choose at_ is using fun i : Fin fuel => named (descents i i.isLt)
  have fewer : Fintype.card ι < Fintype.card (Fin fuel) := by rwa [Fintype.card_fin]
  obtain ⟨i, j, other, same⟩ := Fintype.exists_ne_map_eq_of_card_lt at_ fewer
  have along (i k : Nat) (small : i + k ≤ fuel) : Relation.ReflTransGen D (f i) (f (i + k)) := by
    induction k with
    | zero => exact .refl
    | succ k ih => exact (ih (by omega)).tail (descents (i + k) (by omega))
  have back {i j : Fin fuel} (before : i.val < j.val) (same : at_ i = at_ j) : LeadsBack D (f 0) := by
    refine ⟨f i, ?_, ?_⟩
    · simpa using along 0 i (by omega)
    · have onward := along (i + 1) (j - (i + 1)) (by omega)
      rw [show i.val + 1 + (j - (i + 1)) = j by omega, is j, ← same, ← is i] at onward
      exact Relation.TransGen.head' (descents i i.isLt) onward
  rcases Nat.lt_or_gt_of_ne (fun h => other (Fin.ext h)) with before | after
  · exact back before same
  · exact back after same.symm

end MiniC
