import MiniC.Proofs.Places
import MiniC.Settings.Loading
import MiniC.Toml.Reader

/-!
# The settings file that governs a directory

The search for a settings file goes from a path to its parents. It finds the last of the
directories with settings files that the path goes through (`FileTree.settingsRoot?_last`), and
so it passes by none of those around the place of the path (`FileTree.settingsRoot?_around`). If
that last one is around the place, it is the nearest one there; two dots may lead out of it, and
then it is found all the same (`Loader.settings_govern`).
-/

namespace MiniC
namespace FileTree
variable {files : FileTree} {place dir : List String}

/-! ## Settings files -/

/-- A directory has a settings file. -/
def HasSettings (files : FileTree) (dir : List String) : Prop := (files.at? (dir ++ [settingsFileName])).isSome = true

instance : Decidable (files.HasSettings dir) := inferInstanceAs (Decidable (_ = true))

/-- The nearest directory around a place, the place included, that has a settings file. -/
def Governs (files : FileTree) (dir place : List String) : Prop :=
  dir <+: place ∧ files.HasSettings dir ∧ ∀ dir', dir' <+: place → files.HasSettings dir' → dir' <+: dir

/-- A path goes through a directory that has a settings file, at the end of the way. -/
def Passes (files : FileTree) (start : Path) (way dir : List String) : Prop :=
  way <+: start.parts ∧ files.place? way = some dir ∧ files.HasSettings dir

/-- The directories with settings files that a path goes through are around its place, or it goes through one around
    its place later. -/
def Direct (files : FileTree) (start : Path) (place : List String) : Prop :=
  ∀ way dir, files.Passes start way dir → dir <+: place ∨
    ∃ way' dir', files.Passes start way' dir' ∧ way <+: way' ∧ dir' <+: place

/-- What is written in an entry that is taken for a settings file. -/
def written [Toml.Reader] : FileTree → Except SettingsError (Option Section)
  | directory _ => .error (.unreadable .isDirectory)
  | file content =>
    match String.fromUTF8? content with
    | some text => Section.ofDocument text
    | none => .error (.unreadable .notText)

/-- A path without two dots is direct. -/
theorem direct_of_straight {start : Path} (straight : ".." ∉ start.parts) (leads : files.place? start.parts = some place) :
    files.Direct start place := by
  rintro way dir ⟨⟨rest, parts⟩, there, -⟩
  rw [← parts] at straight leads
  rw [place?_append, there, Option.bind_some] at leads
  exact .inl (prefix_of_steps (fun member => straight (List.mem_append_right _ member)) leads)

theorem step?_settings {inner : List String} :
    files.step? dir settingsFileName = some inner ↔ files.HasSettings dir ∧ inner = dir ++ [settingsFileName] := by
  have proper : Path.isIdle settingsFileName = false := by decide
  have name : settingsFileName ≠ ".." := by decide
  constructor
  · intro step
    obtain ⟨dots, -⟩ | ⟨-, rfl⟩ := step?_proper proper step
    · exact absurd dots name
    · refine ⟨?_, rfl⟩
      unfold step? at step
      split at step
      · rw [if_neg (by simp [proper]), if_neg name] at step
        split at step
        · assumption
        · cases step
      · cases step
  · rintro ⟨has, rfl⟩
    obtain ⟨entry, found⟩ := Option.isSome_iff_exists.1 has
    rw [at?_concat, Option.bind_eq_some_iff] at found
    obtain ⟨here, found, inside⟩ := found
    cases here with
    | file content => cases inside
    | directory entries =>
      unfold step?
      rw [found]
      dsimp only
      rw [HasSettings] at has
      rw [if_neg (by simp [proper]), if_neg name, if_pos has]

/-- There is something under the name of settings files if the path leads to a directory that has a settings file. -/
theorem locate_join {p : Path} {entry : FileTree} : files.locate (p.join settingsFileName) = .ok entry ↔
    ∃ dir, files.place? p.parts = some dir ∧ files.at? (dir ++ [settingsFileName]) = some entry := by
  rw [locate_eq_ok_iff, Path.join]
  simp only [place?_append, Option.bind_eq_some_iff, List.foldlM_cons, List.foldlM_nil, Option.bind_eq_bind]
  constructor
  · rintro ⟨inner, ⟨dir, leads, _, step, same⟩, found⟩
    cases same
    obtain ⟨-, rfl⟩ := step?_settings.1 step
    exact ⟨dir, leads, found⟩
  · rintro ⟨dir, leads, found⟩
    exact ⟨_, ⟨dir, leads, _, step?_settings.2 ⟨by rw [HasSettings, found]; rfl, rfl⟩, rfl⟩, found⟩

theorem exists_join {p : Path} : files.exists (p.join settingsFileName) = true ↔
    ∃ dir, files.place? p.parts = some dir ∧ files.HasSettings dir := by
  have located : files.exists (p.join settingsFileName) = true ↔
      ∃ entry, files.locate (p.join settingsFileName) = .ok entry := by
    unfold «exists»
    cases files.locate (p.join settingsFileName) <;> simp
  simp only [located, locate_join, HasSettings, Option.isSome_iff_exists]
  exact ⟨fun ⟨entry, dir, leads, found⟩ => ⟨dir, leads, entry, found⟩,
    fun ⟨dir, leads, entry, found⟩ => ⟨entry, dir, leads, found⟩⟩

/-- The settings file under a path is read where the path leads. -/
theorem readSection_join [Toml.Reader] {p : Path} (leads : files.place? p.parts = some dir) {entry : FileTree}
    (found : files.at? (dir ++ [settingsFileName]) = some entry) :
    files.readSection (p.join settingsFileName) = entry.written := by
  unfold readSection
  rw [locate_join.2 ⟨dir, leads, found⟩]
  cases entry <;> rfl

/-! ## The search -/

/-- The search goes on with the parent where there is no settings file. -/
theorem settingsRoot?_eq (files : FileTree) (p : Path) : files.settingsRoot? p =
    if files.exists (p.join settingsFileName) then some p else p.parent?.bind files.settingsRoot? := by
  rw [settingsRoot?]
  split
  · rfl
  · split <;> simp_all

/-- The search finds the last of the directories with settings files that a path goes through. -/
theorem settingsRoot?_last (p : Path) (leads : files.place? p.parts = some place) :
    match files.settingsRoot? p with
    | some root => ∃ dir, files.Passes p root.parts dir ∧ ∀ way dir', root.parts <+: way → files.Passes p way dir' → dir' = dir
    | none => ∀ way dir, ¬ files.Passes p way dir := by
  induction p using settingsRoot?.induct files generalizing place with
  | case1 p has =>
    rw [settingsRoot?_eq, if_pos has]
    obtain ⟨dir, there, has⟩ := exists_join.1 has
    refine ⟨dir, ⟨List.prefix_refl _, there, has⟩, fun way dir' after passes => ?_⟩
    have same := after.eq_of_length_le passes.1.length_le
    exact Option.some.inj (passes.2.1.symm.trans (same ▸ there))
  | case2 p hasNot q up ih =>
    rw [settingsRoot?_eq, if_neg hasNot, up, Option.bind_some]
    obtain ⟨shorter, outer, outwards⟩ := place?_parent leads up
    have before {way dir : List String} (passes : files.Passes p way dir) :
        files.Passes q way dir ∨ q.parts <+: way ∧ files.Passes q q.parts dir := by
      obtain ⟨on, there, has⟩ := passes
      obtain rfl | on | ⟨after, there⟩ := place?_way leads up on there
      · exact absurd (exists_join.2 ⟨_, leads, has⟩) hasNot
      · exact .inl ⟨on, there, has⟩
      · exact .inr ⟨after, List.prefix_refl _, there, has⟩
    have found := ih outwards
    split at found
    · obtain ⟨dir, passes, last⟩ := found
      refine ⟨dir, ⟨passes.1.trans shorter, passes.2⟩, fun way dir' after passes' => ?_⟩
      obtain passes' | ⟨-, passes'⟩ := before passes'
      · exact last way dir' after passes'
      · exact last q.parts dir' passes.1 passes'
    · intro way dir passes
      obtain passes | ⟨-, passes⟩ := before passes
      · exact found _ _ passes
      · exact found _ _ passes
  | case3 p hasNot top =>
    rw [settingsRoot?_eq, if_neg hasNot, top, Option.bind_none]
    rintro way dir ⟨⟨rest, parts⟩, there, has⟩
    have idle : ∀ part ∈ rest, Path.isIdle part = true := fun part member =>
      Path.idle_of_parent?_eq_none top part (parts ▸ List.mem_append_right _ member)
    rw [← parts] at leads
    have same : dir = place := place?_eq_of_idle idle leads there
    rw [parts] at leads
    exact hasNot (exists_join.2 ⟨place, leads, same ▸ has⟩)

/-- The directories around the place of a path are around one that the path goes through, or the path goes through
    them later. -/
theorem passes_of_around {p : Path} {way : List String} (leads : files.place? p.parts = some place)
    (on : way <+: p.parts) (there : files.place? way = some dir) {dir' : List String} (around : dir' <+: place)
    (has : files.HasSettings dir') : dir' <+: dir ∨ ∃ way', way <+: way' ∧ files.Passes p way' dir' := by
  obtain ⟨rest, parts⟩ := on
  rw [← parts, place?_append, there, Option.bind_some] at leads
  obtain around | ⟨way', on, there'⟩ := around_or_passed leads around
  · exact .inl around
  · refine .inr ⟨way ++ way', List.prefix_append _ _, ?_, ?_, has⟩
    · rw [← parts]
      exact (List.prefix_append_right_inj way).2 on
    · rw [place?_append, there, Option.bind_some, there']

/-- The search passes by none of the settings files of the directories around the place of a path. -/
theorem settingsRoot?_around (p : Path) (leads : files.place? p.parts = some place) :
    match files.settingsRoot? p with
    | some root => ∃ dir, files.Passes p root.parts dir ∧
        (∀ dir', dir' <+: place → files.HasSettings dir' → dir' <+: dir) ∧ (files.Direct p place ↔ dir <+: place)
    | none => (∀ dir, dir <+: place → ¬ files.HasSettings dir) ∧ files.Direct p place := by
  have found := settingsRoot?_last p leads
  split at found
  · rename_i root _
    obtain ⟨dir, passes, last⟩ := found
    have inside : ∀ dir', dir' <+: place → files.HasSettings dir' → dir' <+: dir := by
      intro dir' around has
      obtain around | ⟨way, after, passes'⟩ := passes_of_around leads passes.1 passes.2.1 around has
      · exact around
      · exact last way dir' after passes' ▸ List.prefix_refl _
    refine ⟨dir, passes, inside, fun direct => ?_, fun around way dir' passes' => ?_⟩
    · obtain around | ⟨way, dir', passes', after, around⟩ := direct _ _ passes
      · exact around
      · exact last way dir' after passes' ▸ around
    · obtain before | after := List.prefix_or_prefix_of_prefix passes'.1 passes.1
      · exact .inr ⟨root.parts, dir, passes, before, around⟩
      · exact .inl (last way dir' after passes' ▸ around)
  · refine ⟨fun dir around has => ?_, fun way dir passes => absurd passes (found way dir)⟩
    obtain around | ⟨way, -, passes⟩ := passes_of_around leads List.nil_prefix rfl around has
    · exact found [] dir ⟨List.nil_prefix, congrArg some (List.prefix_nil.1 around).symm, has⟩
    · exact found way dir passes

end FileTree

/-! ## Loading -/

namespace Loader
variable {l : Loader} {files : FileTree} {env : Variables} {start : Path} {place dir : List String}

/-- What is loaded for a path comes from the settings file of a directory, and the directory is reported. -/
def LoadsFrom [Toml.Reader] (l : Loader) (files : FileTree) (env : Variables) (start : Path) (dir : List String) : Prop :=
  ∃ root entry, files.place? root.parts = some dir ∧ files.at? (dir ++ [settingsFileName]) = some entry ∧
    l.loadDirectory files env start = do
      let written ← entry.written
      return ⟨← l.resolve written env, written, some root⟩

theorem loadsFrom_of_settingsRoot? [Toml.Reader] {root : Path} (found : files.settingsRoot? start = some root)
    (leads : files.place? root.parts = some dir) (has : files.HasSettings dir) : l.LoadsFrom files env start dir := by
  obtain ⟨entry, inside⟩ := Option.isSome_iff_exists.1 has
  refine ⟨root, entry, leads, inside, ?_⟩
  rw [loadDirectory, found, ← FileTree.readSection_join leads inside]

/-- **The settings that govern a directory.** The search from a path to its parents ends. Wherever the path leads, it
    finds the settings file of the nearest directory around there that has one, or none if none has one, just if the
    path is direct, as it is without two dots. Else it finds one of a directory that the path went through and left,
    and that is not around. -/
theorem settings_govern [Toml.Reader] (l : Loader) (files : FileTree) (env : Variables) (start : Path)
    (leads : files.place? start.parts = some place) :
    (WellFounded fun q p : Path => p.parent? = some q) ∧
    (∀ p, files.settingsRoot? p =
      if files.exists (p.join settingsFileName) then some p else p.parent?.bind files.settingsRoot?) ∧
    (".." ∉ start.parts → files.Direct start place) ∧
    (files.Direct start place →
      (∃ dir, files.Governs dir place ∧ l.LoadsFrom files env start dir) ∨
      (∀ dir, dir <+: place → ¬ files.HasSettings dir) ∧
        l.loadDirectory files env start = do return ⟨← l.resolve none env, none, none⟩) ∧
    (¬ files.Direct start place → ∃ way dir, files.Passes start way dir ∧ ¬ dir <+: place ∧
      (∀ dir', dir' <+: place → files.HasSettings dir' → dir' <+: dir) ∧ l.LoadsFrom files env start dir) := by
  have ends : WellFounded fun q p : Path => p.parent? = some q :=
    Subrelation.wf Path.length_parent?_lt (measure fun p : Path => p.parts.length).wf
  have around := FileTree.settingsRoot?_around start leads
  refine ⟨ends, FileTree.settingsRoot?_eq files, fun straight => FileTree.direct_of_straight straight leads, ?_⟩
  split at around
  · rename_i root found
    obtain ⟨dir, passes, inside, direct⟩ := around
    have loads : l.LoadsFrom files env start dir := loadsFrom_of_settingsRoot? found passes.2.1 passes.2.2
    exact ⟨fun straight => .inl ⟨dir, ⟨direct.1 straight, passes.2.2, inside⟩, loads⟩,
      fun crooked => ⟨root.parts, dir, passes, mt direct.2 crooked, inside, loads⟩⟩
  · rename_i found
    refine ⟨fun _ => .inr ⟨around.1, ?_⟩, absurd around.2⟩
    rw [loadDirectory, found]
    rfl

/-- A settings file in the directory around governs. -/
theorem settings_govern_below :
    let files : FileTree := .directory [("a", .directory [(settingsFileName, .file ⟨#[]⟩), ("b", .directory [])])]
    files.place? ["a", ".", "b"] = some ["a", "b"] ∧
      ∃ dir, files.Governs dir ["a", "b"] ∧ LoadsFrom {} files (fun _ => none) ⟨["a", ".", "b"]⟩ dir := by
  intro files
  have leads : files.place? ["a", ".", "b"] = some ["a", "b"] := by decide
  obtain ⟨-, -, straight, found, -⟩ := settings_govern {} files (fun _ => none) ⟨["a", ".", "b"]⟩ leads
  obtain found | ⟨nothing, -⟩ := found (straight (by decide))
  · exact ⟨leads, found⟩
  · exact absurd rfl (nothing ["a"] ⟨["b"], rfl⟩)

/-- The settings file of a directory that the path has left governs a place without settings. -/
theorem settings_of_left_directory :
    let files : FileTree := .directory [("a", .directory [("b", .directory [(settingsFileName, .file ⟨#[]⟩)])])]
    files.place? ["a", "b", ".."] = some ["a"] ∧ (∀ dir, dir <+: ["a"] → ¬ files.HasSettings dir) ∧
      loadDirectory {} files (fun _ => none) ⟨["a", "b", ".."]⟩ = .ok ⟨{}, none, some ⟨["a", "b"]⟩⟩ := by
  intro files
  have root : files.settingsRoot? ⟨["a", "b", ".."]⟩ = some ⟨["a", "b"]⟩ := by
    rw [FileTree.settingsRoot?_eq, if_neg (by decide)]
    show files.settingsRoot? ⟨["a", "b"]⟩ = _
    rw [FileTree.settingsRoot?_eq, if_pos (by decide)]
  refine ⟨by decide, fun dir around => ?_, ?_⟩
  · obtain rfl | ⟨t, rfl, nil⟩ := List.prefix_cons_iff.1 around
    · decide
    · obtain rfl := List.prefix_nil.1 nil
      decide
  · rw [loadDirectory, root]
    rfl

end Loader
end MiniC
