import Mathlib.Data.List.DropRight
import MiniC.FileTree

/-!
# Places in a file tree

A place is given by the names that lead to it from the root, so the directories around it are
its prefixes. A path leads to a place part by part, and two dots lead out of a directory
(`FileTree.place?`). Walking through the tree finds what lies there (`FileTree.locate_eq_ok_iff`).
The parent of a path is a beginning of the path, so it leads to something that the path goes
through (`FileTree.place?_way`), which is a directory around only if no two dots are cut off.
-/

namespace MiniC

/-! ## Parents of paths -/

namespace Path
variable {p q : Path}

/-- A parent is what stands before the last part that is not idle, without the idle parts there. -/
theorem parts_of_parent? (up : p.parent? = some q) : ∃ idle part idle', p.parts = q.parts ++ idle ++ [part] ++ idle' ∧
    (∀ x ∈ idle, isIdle x = true) ∧ isIdle part = false ∧ ∀ x ∈ idle', isIdle x = true := by
  unfold parent? at up
  split at up
  · cases up
  · rename_i part rest last
    cases up
    have proper : isIdle part = false := by
      have first := List.head_dropWhile_not isIdle (l := p.parts.reverse) (by rw [last]; exact List.cons_ne_nil _ _)
      simpa [last] using first
    have whole : p.parts.rdropWhile isIdle = rest.reverse ++ [part] := by
      rw [List.rdropWhile, last, List.reverse_cons]
    refine ⟨rest.reverse.rtakeWhile isIdle, part, p.parts.rtakeWhile isIdle, ?_, fun x => List.mem_rtakeWhile_imp, proper,
      fun x => List.mem_rtakeWhile_imp⟩
    show _ = rest.reverse.rdropWhile isIdle ++ _ ++ _ ++ _
    rw [List.rdropWhile_append_rtakeWhile, ← whole, List.rdropWhile_append_rtakeWhile]

/-- A path without a parent is idle. -/
theorem idle_of_parent?_eq_none (top : p.parent? = none) : ∀ x ∈ p.parts, isIdle x = true := by
  unfold parent? at top
  split at top
  · rename_i nothing
    intro x member
    exact List.dropWhile_eq_nil_iff.1 nothing x (List.mem_reverse.2 member)
  · cases top

end Path

namespace FileTree

/-! ## Places -/

/-- The entry of a name in a directory. -/
def child? : FileTree → String → Option FileTree
  | directory entries, name => entries.lookup name
  | file _, _ => none

/-- What lies at a place. -/
def at? (root : FileTree) (place : List String) : Option FileTree := place.foldlM child? root

/-- Where one more part of a path leads from a place. Nothing leads on from a file. -/
def step? (root : FileTree) (place : List String) (part : String) : Option (List String) :=
  match root.at? place with
  | some (directory _) =>
    if Path.isIdle part then some place
    else if part = ".." then some place.dropLast
    else if (root.at? (place ++ [part])).isSome then some (place ++ [part])
    else none
  | _ => none

/-- The place to which the parts of a path lead. -/
def place? (root : FileTree) (parts : List String) : Option (List String) := parts.foldlM root.step? []

variable {root : FileTree} {place place' parts : List String} {part : String}

theorem at?_concat : root.at? (place ++ [part]) = (root.at? place).bind (·.child? part) := by
  simp [at?, List.foldlM_append, Option.bind_eq_bind]

theorem place?_append (parts rest : List String) :
    root.place? (parts ++ rest) = (root.place? parts).bind fun place => rest.foldlM root.step? place := by
  simp [place?, List.foldlM_append, Option.bind_eq_bind]

/-- An idle part leads nowhere else. -/
theorem step?_idle (idle : Path.isIdle part = true) (step : root.step? place part = some place') : place' = place := by
  unfold step? at step
  split at step
  · rw [if_pos idle] at step
    exact (Option.some.inj step).symm
  · cases step

/-- A part that is not idle leads one directory out or one name further. -/
theorem step?_proper (proper : Path.isIdle part = false) (step : root.step? place part = some place') :
    part = ".." ∧ place' = place.dropLast ∨ part ≠ ".." ∧ place' = place ++ [part] := by
  unfold step? at step
  split at step
  · rw [if_neg (by simp [proper])] at step
    split at step
    · rename_i dots
      exact .inl ⟨dots, (Option.some.inj step).symm⟩
    · rename_i name
      split at step
      · exact .inr ⟨name, (Option.some.inj step).symm⟩
      · cases step
  · cases step

/-- Without two dots a path leads further inwards only. -/
theorem prefix_of_steps {rest : List String} (straight : ".." ∉ rest) (steps : rest.foldlM root.step? place = some place') :
    place <+: place' := by
  induction rest generalizing place with
  | nil =>
    cases steps
    exact List.prefix_refl _
  | cons part rest ih =>
    rw [List.foldlM_cons, Option.bind_eq_bind, Option.bind_eq_some_iff] at steps
    obtain ⟨next, step, steps⟩ := steps
    rw [List.mem_cons, not_or] at straight
    refine List.IsPrefix.trans ?_ (ih straight.2 steps)
    by_cases idle : Path.isIdle part = true
    · obtain rfl := step?_idle idle step
      exact List.prefix_refl _
    · obtain ⟨dots, -⟩ | ⟨-, rfl⟩ := step?_proper (by simpa using idle) step
      · exact absurd dots.symm straight.1
      · exact List.prefix_append _ _

/-- Idle parts at the end of a path do not matter. -/
theorem place?_of_idle {idle : List String} (all : ∀ part ∈ idle, Path.isIdle part = true)
    (leads : root.place? (parts ++ idle) = some place) : root.place? parts = some place := by
  rw [place?_append, Option.bind_eq_some_iff] at leads
  obtain ⟨before, found, steps⟩ := leads
  induction idle generalizing before with
  | nil =>
    cases steps
    exact found
  | cons part idle ih =>
    rw [List.foldlM_cons, Option.bind_eq_bind, Option.bind_eq_some_iff] at steps
    obtain ⟨next, step, steps⟩ := steps
    rw [List.forall_mem_cons] at all
    rw [step?_idle all.1 step] at steps
    exact ih all.2 before found steps

/-- Beginnings of a path that differ from it by idle parts lead where it leads. -/
theorem place?_eq_of_idle {idle : List String} (all : ∀ part ∈ idle, Path.isIdle part = true)
    (leads : root.place? (parts ++ idle) = some place) (leads' : root.place? parts = some place') : place' = place :=
  Option.some.inj (leads'.symm.trans (place?_of_idle all leads))

/-- A parent leads somewhere if the path does, and the path leads around it by one more part. -/
theorem place?_parent {p q : Path} (leads : root.place? p.parts = some place) (up : p.parent? = some q) :
    q.parts <+: p.parts ∧ ∃ outer, root.place? q.parts = some outer := by
  obtain ⟨idle, part, idle', parts, all, -, all'⟩ := Path.parts_of_parent? up
  rw [parts] at leads
  have leads := place?_of_idle all' leads
  rw [place?_append, Option.bind_eq_some_iff] at leads
  obtain ⟨outer, found, -⟩ := leads
  exact ⟨⟨idle ++ [part] ++ idle', by simp [parts]⟩, outer, place?_of_idle all found⟩

/-- The beginning of two lists in a row ends in the first one or goes on in the second one. -/
theorem prefix_append_cases {way first second : List String} (on : way <+: first ++ second) :
    way <+: first ∨ ∃ rest, rest <+: second ∧ way = first ++ rest := by
  obtain inside | ⟨rest, rfl⟩ := List.prefix_or_prefix_of_prefix on (List.prefix_append first second)
  · exact .inl inside
  · exact .inr ⟨rest, (List.prefix_append_right_inj first).1 on, rfl⟩

/-- What a path goes through is where it leads, or its parent goes through it. -/
theorem place?_way {p q : Path} {way : List String} (leads : root.place? p.parts = some place) (up : p.parent? = some q)
    (on : way <+: p.parts) (there : root.place? way = some place') :
    place' = place ∨ way <+: q.parts ∨ q.parts <+: way ∧ root.place? q.parts = some place' := by
  obtain ⟨idle, part, idle', parts, all, -, all'⟩ := Path.parts_of_parent? up
  rw [parts, List.append_assoc, List.append_assoc] at on
  obtain inside | ⟨t, within, rfl⟩ := prefix_append_cases on
  · exact .inr (.inl inside)
  have idly (all : ∀ x ∈ t, Path.isIdle x = true) : root.place? q.parts = some place' := place?_of_idle all there
  obtain shorter | ⟨t', further, rfl⟩ := prefix_append_cases within
  · exact .inr (.inr ⟨List.prefix_append _ _, idly fun x member => all x (shorter.subset member)⟩)
  cases t' with
  | nil => exact .inr (.inr ⟨List.prefix_append _ _, idly (by simpa using all)⟩)
  | cons head t' =>
    obtain ⟨rfl, rest, rfl⟩ := List.cons_prefix_cons.1 further
    have same : p.parts = q.parts ++ (idle ++ head :: t') ++ rest := by simp [parts]
    rw [same] at leads
    exact .inl (place?_eq_of_idle (fun x member => all' x (List.mem_append_right _ member)) leads there)

/-- The directories around the end of a way are around its start, or the way goes through them. -/
theorem around_or_passed {rest : List String} {dir : List String} (steps : rest.foldlM root.step? place = some place')
    (around : dir <+: place') : dir <+: place ∨ ∃ way, way <+: rest ∧ way.foldlM root.step? place = some dir := by
  induction rest generalizing place with
  | nil =>
    cases steps
    exact .inl around
  | cons part rest ih =>
    rw [List.foldlM_cons, Option.bind_eq_bind, Option.bind_eq_some_iff] at steps
    obtain ⟨next, step, steps⟩ := steps
    have further {way : List String} {place'' : List String} (there : way.foldlM root.step? next = some place'') :
        (part :: way).foldlM root.step? place = some place'' := by
      rw [List.foldlM_cons, step]
      exact there
    obtain around | ⟨way, on, there⟩ := ih steps
    · by_cases idle : Path.isIdle part = true
      · rw [step?_idle idle step] at around
        exact .inl around
      obtain ⟨-, rfl⟩ | ⟨-, rfl⟩ := step?_proper (by simpa using idle) step
      · exact .inl (around.trans (List.dropLast_prefix place))
      · obtain rfl | around := List.prefix_concat_iff.1 around
        · exact .inr ⟨[part], ⟨rest, rfl⟩, further rfl⟩
        · exact .inl around
    · exact .inr ⟨part :: way, List.cons_prefix_cons.2 ⟨rfl, on⟩, further there⟩

/-! ## Walking -/

/-- A walk has come to a place, with the directories around it, the nearest first. -/
inductive Stands (root : FileTree) : List String → FileTree → List FileTree → Prop
  | outermost : Stands root [] root []
  | inner {place : List String} {entries : List (String × FileTree)} {around : List FileTree} {name : String}
      {here : FileTree} : Stands root place (directory entries) around → entries.lookup name = some here →
      Stands root (place ++ [name]) here (directory entries :: around)

theorem Stands.at?_eq {here : FileTree} {around : List FileTree} (h : Stands root place here around) :
    root.at? place = some here := by
  induction h with
  | outermost => rfl
  | inner _ found ih => rw [at?_concat, ih]; exact found

/-- A walk ends with what lies at the place to which the parts lead. -/
theorem Stands.walk_eq_ok_iff {here : FileTree} {around : List FileTree} (h : Stands root place here around)
    (parts : List String) (last : FileTree) :
    walk here around parts = .ok last ↔ ∃ place', parts.foldlM root.step? place = some place' ∧ root.at? place' = some last := by
  induction parts generalizing place here around with
  | nil => simp [walk, h.at?_eq]
  | cons part rest ih =>
    rw [List.foldlM_cons, Option.bind_eq_bind]
    cases here with
    | file content => simp [walk, step?, h.at?_eq]
    | directory entries =>
      have step : root.step? place part =
          if Path.isIdle part then some place
          else if part = ".." then some place.dropLast
          else if (root.at? (place ++ [part])).isSome then some (place ++ [part])
          else none := by
        unfold step?
        rw [h.at?_eq]
      rw [step, walk.eq_def]
      dsimp only
      by_cases idle : Path.isIdle part = true
      · rw [if_pos idle, if_pos idle]
        exact ih h
      rw [if_neg idle, if_neg idle]
      by_cases dots : part = ".."
      · rw [if_pos dots, if_pos (beq_iff_eq.2 dots), Option.bind_some]
        cases h with
        | outermost => exact ih .outermost
        | inner outer found =>
          rw [List.dropLast_concat]
          exact ih outer
      · rw [if_neg dots, if_neg (mt beq_iff_eq.1 dots)]
        have entry : root.at? (place ++ [part]) = entries.lookup part := by rw [at?_concat, h.at?_eq]; rfl
        cases found : entries.lookup part with
        | none => simp [entry, found]
        | some inner =>
          rw [if_pos (by rw [entry, found]; rfl), Option.bind_some]
          exact ih (h.inner found)

/-- What a path denotes is what lies at the place to which it leads. -/
theorem locate_eq_ok_iff {p : Path} {last : FileTree} :
    root.locate p = .ok last ↔ ∃ place, root.place? p.parts = some place ∧ root.at? place = some last :=
  Stands.outermost.walk_eq_ok_iff p.parts last

end FileTree
end MiniC
