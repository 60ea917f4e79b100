import Mathlib.Data.List.DropRight
import MiniC.Text.Blank

/-!
# What trimming leaves

Characters are dropped at both ends of a text. If the rest has none of those that are dropped,
it is what stands between them (`dropEnd_dropWhile_eq_iff`), and in which order the ends are
dropped does not matter (`dropWhile_dropEnd`).
-/

namespace MiniC.Text
variable {p q : Char → Bool}

/-- A text with blanks around a core. -/
def Padded (text core : List Char) : Prop :=
  ∃ before after, (∀ c ∈ before, isBlank c = true) ∧ (∀ c ∈ after, isBlank c = true) ∧ text = before ++ core ++ after

/-- Dropping at the end goes on past a character only if nothing is left behind it. -/
theorem dropEnd_cons (c : Char) (cs : List Char) :
    dropEnd p (c :: cs) = if dropEnd p cs = [] ∧ p c = true then [] else c :: dropEnd p cs := by
  unfold dropEnd
  rw [List.reverse_cons, List.dropWhile_append]
  by_cases all : List.dropWhile p cs.reverse = []
  · by_cases first : p c = true <;> simp [all, first]
  · simp [all]

/-- The two ends may be dropped in either order, if what is dropped in front is also dropped at the end. -/
theorem dropWhile_dropEnd (both : ∀ c, q c = true → p c = true) (cs : List Char) :
    (dropEnd p cs).dropWhile q = dropEnd p (cs.dropWhile q) := by
  induction cs with
  | nil => rfl
  | cons c cs ih =>
    by_cases front : q c = true
    · rw [List.dropWhile_cons_of_pos front, ← ih, dropEnd_cons]
      by_cases nothing : dropEnd p cs = []
      · simp [nothing, both c front]
      · simp [nothing, front]
    · rw [List.dropWhile_cons_of_neg front, dropEnd_cons]
      split
      · rfl
      · exact List.dropWhile_cons_of_neg front

/-- Nothing has to be dropped at the end before more is dropped there. -/
theorem dropEnd_dropEnd (both : ∀ c, q c = true → p c = true) (cs : List Char) :
    dropEnd p (dropEnd q cs) = dropEnd p cs := by
  induction cs with
  | nil => rfl
  | cons c cs ih =>
    rw [dropEnd_cons (p := q), dropEnd_cons]
    by_cases nothing : dropEnd q cs = [] ∧ q c = true
    · have none : dropEnd p cs = [] := by rw [← ih, nothing.1]; rfl
      rw [if_pos nothing, if_pos ⟨none, both c nothing.2⟩]
      rfl
    · rw [if_neg nothing, dropEnd_cons, ih]

/-- All of the characters behind are dropped with the end. -/
theorem dropEnd_append {after : List Char} (back : ∀ c ∈ after, p c = true) (cs : List Char) :
    dropEnd p (cs ++ after) = dropEnd p cs := by
  unfold dropEnd
  rw [List.reverse_append, List.dropWhile_append_of_pos fun c member => back c (List.mem_reverse.1 member)]

/-- What is left between two ends that are dropped, if none of it could be dropped itself. -/
theorem dropEnd_dropWhile_eq_iff {core : List Char} (plain : ∀ c ∈ core, q c = false ∧ p c = false) (cs : List Char) :
    dropEnd p (cs.dropWhile q) = core ↔
      ∃ before after, (∀ c ∈ before, q c = true) ∧ (∀ c ∈ after, p c = true) ∧ cs = before ++ core ++ after := by
  constructor
  · intro rest
    refine ⟨cs.takeWhile q, (cs.dropWhile q).rtakeWhile p, fun c => List.mem_takeWhile_imp, fun c => List.mem_rtakeWhile_imp, ?_⟩
    rw [List.append_assoc, ← rest, show dropEnd p (cs.dropWhile q) = (cs.dropWhile q).rdropWhile p from rfl,
      List.rdropWhile_append_rtakeWhile, List.takeWhile_append_dropWhile]
  · rintro ⟨before, after, front, back, rfl⟩
    rw [List.append_assoc, List.dropWhile_append_of_pos front]
    cases core with
    | nil => exact List.rdropWhile_eq_nil_iff.2 fun c member => back c (List.dropWhile_sublist q |>.subset member)
    | cons c rest =>
      have kept : q c = false := (plain c List.mem_cons_self).1
      rw [List.cons_append, List.dropWhile_cons_of_neg (by simp [kept]), ← List.cons_append, dropEnd_append back]
      exact List.rdropWhile_eq_self_iff.2 fun some => by simp [(plain _ (List.getLast_mem some)).2]

/-- A text is trimmed to a core without blanks exactly if the core has blanks around it in the text. -/
theorem trim_eq_iff {core : List Char} (plain : ∀ c ∈ core, isBlank c = false) (text : List Char) :
    trim text = core ↔ Padded text core :=
  dropEnd_dropWhile_eq_iff (fun c member => ⟨plain c member, plain c member⟩) text

end MiniC.Text
