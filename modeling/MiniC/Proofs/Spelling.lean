import MiniC.Proofs.Trimming
import MiniC.Proofs.Fitting

/-!
# The spellings of kinds

A kind is spelled by blanks, the name of its primitive type, and any mixture of stars and
blanks (`Kind.Spelled`). Reading a spelling, reading the tag that is built from it, writing a
kind and putting off a cast all keep to this one language (`Kind.spellings_agree`): the pieces
cut a text at different places, but what they drop at its ends is the same.
-/

namespace MiniC

/-! ## Primitive types -/

/-- The spellings of the primitive types. -/
def Primitive.spellings : List (String × Primitive) :=
  [("void", .void), ("bool", .bool), ("_Bool", .bool), ("char", .char), ("int", .int), ("float", .float),
   ("double", .double)]

theorem Primitive.ofName?_eq_some_iff {name : String} {p : Primitive} :
    ofName? name = some p ↔ (name, p) ∈ spellings := by
  unfold ofName? spellings all
  by_cases second : name = "_Bool"
  · subst second
    cases p <;> simp
  · cases p <;> simp [second, Primitive.name] <;> grind

/-- In the name of a primitive type there are neither stars nor blanks. -/
theorem Primitive.plain_of_spelling {name : String} {p : Primitive} (known : (name, p) ∈ spellings) :
    ∀ c ∈ name.toList, Tree.isStarOrBlank c = false := by
  have plain : ∀ entry ∈ spellings, entry.1.toList.all (fun c => !Tree.isStarOrBlank c) = true := by decide
  simpa using plain _ known

namespace Kind

/-- A text spells a kind: blanks, a spelling of its primitive type, then stars and blanks, with a star
    for each level of pointers. -/
def Spelled (k : Kind) (s : String) : Prop :=
  ∃ before name after, (name, k.primitive) ∈ Primitive.spellings ∧ s.toList = before ++ name.toList ++ after ∧
    (∀ c ∈ before, Text.isBlank c = true) ∧ (∀ c ∈ after, c = '*' ∨ Text.isBlank c = true) ∧
    k.pointers.toNat = s.toList.count '*'

/-! ## Reading -/

theorem isStarOrBlank_iff {c : Char} : Tree.isStarOrBlank c = true ↔ c = '*' ∨ Text.isBlank c = true := by
  simp [Tree.isStarOrBlank]

/-- Blanks are dropped in front, and stars and blanks at the end. -/
theorem toList_baseName (s : String) :
    (baseName s).toList = Text.dropEnd Tree.isStarOrBlank (s.toList.dropWhile Text.isBlank) := by
  unfold baseName Text.trim
  rw [String.toList_ofList, Text.dropEnd_dropEnd fun c blank => isStarOrBlank_iff.2 (.inr blank)]

/-- The name in a spelling stands between blanks and a mixture of stars and blanks. -/
theorem baseName_eq_iff {name : String} {p : Primitive} (known : (name, p) ∈ Primitive.spellings) (s : String) :
    baseName s = name ↔ ∃ before after, (∀ c ∈ before, Text.isBlank c = true) ∧
      (∀ c ∈ after, Tree.isStarOrBlank c = true) ∧ s.toList = before ++ name.toList ++ after := by
  rw [← String.toList_inj, toList_baseName]
  refine Text.dropEnd_dropWhile_eq_iff (fun c member => ?_) _
  have plain := Primitive.plain_of_spelling known c member
  exact ⟨(Bool.or_eq_false_iff.1 plain).2, plain⟩

theorem ofSpelling_eq_ok_iff {s : String} {k : Kind} :
    ofSpelling s = .ok k ↔ Primitive.ofName? (baseName s) = some k.primitive ∧ Tree.stars s = k.pointers := by
  obtain ⟨p, n⟩ := k
  unfold ofSpelling
  cases Primitive.ofName? (baseName s) <;> simp

/-- What is read is what is spelled. -/
theorem ofSpelling_eq_ok_iff_spelled {s : String} (few : s.toList.count '*' < 2 ^ 32) (k : Kind) :
    ofSpelling s = .ok k ↔ k.Spelled s := by
  have stars : Tree.stars s = k.pointers ↔ k.pointers.toNat = s.toList.count '*' := by
    rw [← UInt32.toNat_inj, Tree.stars, UInt32.toNat_ofNat_of_lt' few]
    exact eq_comm
  rw [ofSpelling_eq_ok_iff, Primitive.ofName?_eq_some_iff, stars]
  constructor
  · rintro ⟨known, levels⟩
    obtain ⟨before, after, front, back, parts⟩ := (baseName_eq_iff known s).1 rfl
    exact ⟨before, _, after, known, parts, front, fun c member => isStarOrBlank_iff.1 (back c member), levels⟩
  · rintro ⟨before, name, after, known, parts, front, back, levels⟩
    have same := (baseName_eq_iff known s).2 ⟨before, after, front, fun c member => isStarOrBlank_iff.2 (back c member), parts⟩
    exact ⟨by rwa [same], levels⟩

/-! ## Tags -/

/-- The name in the tag of a spelling. -/
def tagName (s : String) : String := String.ofList (Text.dropEnd Tree.isStarOrBlank s.toList)

/-- In the name of a tag the same name is found as in the whole spelling. -/
theorem baseName_tagName (s : String) : baseName (tagName s) = baseName s := by
  have both : ∀ c, Text.isBlank c = true → Tree.isStarOrBlank c = true := fun c blank => isStarOrBlank_iff.2 (.inr blank)
  rw [← String.toList_inj, toList_baseName, toList_baseName, tagName, String.toList_ofList, Text.dropWhile_dropEnd both]
  exact Text.dropEnd_dropEnd (fun _ same => same) _

/-- No star is left in the name of a tag that stands for a kind. -/
theorem stars_tagName {s : String} {p : Primitive} (known : Primitive.ofName? (baseName (tagName s)) = some p) :
    Tree.stars (tagName s) = 0 := by
  have spelling := Primitive.ofName?_eq_some_iff.1 known
  rw [baseName_tagName] at spelling
  obtain ⟨before, after, front, back, parts⟩ := (baseName_eq_iff spelling s).1 rfl
  have cut : (tagName s).toList <+: before ++ (baseName s).toList := by
    rw [tagName, String.toList_ofList, parts, Text.dropEnd_append back]
    exact List.rdropWhile_prefix _ _
  have none : (tagName s).toList.count '*' = 0 := by
    refine List.count_eq_zero.2 fun star => ?_
    rcases List.mem_append.1 (cut.subset star) with member | member
    · exact absurd (front _ member) (by decide)
    · exact absurd (Primitive.plain_of_spelling spelling _ member) (by decide)
  rw [Tree.stars, none]
  rfl

/-- The tag of a spelling stands for the kind of the spelling, or is refused under the same name. -/
theorem kind_ty (s : String) : (Tree.ty s).kind = (ofSpelling s).mapError fun name => .type (.unknownType name) none := by
  show (Tree.bare (.typeTag (tagName s) (Tree.stars s))).kind = _
  cases known : Primitive.ofName? (baseName s) with
  | none => simp [Node.kind, Tree.bare, ofSpelling, baseName_tagName, known, Except.mapError]
  | some p =>
    have found : Primitive.ofName? (baseName (tagName s)) = some p := by rw [baseName_tagName, known]
    have bare : ofSpelling (tagName s) = .ok (.plain p) := ofSpelling_eq_ok_iff.2 ⟨found, stars_tagName found⟩
    rw [kind_typeTag bare]
    simp [ofSpelling, known, Except.mapError]

/-! ## Writing -/

/-- A written kind is a spelling of it. -/
theorem spelled_render (k : Kind) : k.Spelled k.render := by
  have known : (k.primitive.name, k.primitive) ∈ Primitive.spellings := by cases k.primitive <;> decide
  have noStars : k.primitive.name.toList.count '*' = 0 := by cases k.primitive <;> decide
  unfold render
  by_cases pointer : k.isPointer = true
  · rw [if_pos pointer]
    refine ⟨[], _, ' ' :: List.replicate k.pointers.toNat '*', known, by simp, by simp, fun c member => ?_, by simp [noStars]⟩
    rcases List.mem_cons.1 member with rfl | star
    · exact .inr (by decide)
    · exact .inl (List.eq_of_mem_replicate star)
  · rw [if_neg pointer]
    have zero : k.pointers = 0 := by simpa [isPointer] using pointer
    exact ⟨[], _, [], known, by simp, by simp, by simp, by simp [noStars, zero]⟩

/-! ## One language -/

/-- A text with fewer than `2 ^ 32` stars is read as a kind exactly if it spells it, and so is the tag that is
    built from the text, which otherwise is refused with the same message. A written kind is read back, and the
    tag of a cast that is put off stands for the kind it was made for. -/
theorem spellings_agree (s : String) (few : s.toList.count '*' < 2 ^ 32) :
    (∀ k, ofSpelling s = .ok k ↔ k.Spelled s) ∧
    (Tree.ty s).kind = (ofSpelling s).mapError (fun name => .type (.unknownType name) none) ∧
    ∀ k : Kind, ofSpelling k.render = .ok k ∧
      ∀ n : Node, ∃ tag, (n.castTo k).form = .member n tag false ∧ tag.kind = .ok k := by
  refine ⟨ofSpelling_eq_ok_iff_spelled few, kind_ty s, fun k => ⟨?_, fun n => ⟨k.tag, rfl, kind_tag k⟩⟩⟩
  obtain ⟨before, name, after, known, parts, front, back, levels⟩ := k.spelled_render
  refine (ofSpelling_eq_ok_iff_spelled ?_ k).2 k.spelled_render
  rw [← levels]
  exact k.pointers.toNat_lt

/-- Two stars with blanks around them. -/
theorem spellings_agree_stars : (Kind.mk .char 2).Spelled " char * *" ∧ (Tree.ty " char * *").kind = .ok ⟨.char, 2⟩ := by
  obtain ⟨read, built, -⟩ := spellings_agree " char * *" (by decide)
  have ok : ofSpelling " char * *" = .ok ⟨.char, 2⟩ := by decide +kernel
  exact ⟨(read _).1 ok, by rw [built, ok]; rfl⟩

end Kind
end MiniC
