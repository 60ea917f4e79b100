import MiniC.Proofs.Nesting

/-!
# Trees that have been read

A tree that has been read of a value nests no deeper, written, than the value, and its numbers are
finite (`Node.fits_of_ofJsonWithin?`). What has been read of a program or at the top of one fits a
text (`Program.fits_of_ofJson?`).
-/

namespace MiniC
open Json

/-! ## Fields that are found -/

section
variable {fields : List (String × Json)} {key : String}

theorem mem_of_required? {v : Json} (found : required? fields key = some v) : (key, v) ∈ fields := by
  unfold required? field? at found
  split at found
  · cases found
  · rename_i key' value kept
    cases found
    have member : (key', v) ∈ fields.filter (·.1 == key) := by rw [kept]; exact List.mem_singleton_self _
    obtain ⟨among, same⟩ := List.mem_filter.mp member
    have same : key' = key := eq_of_beq same
    rwa [same] at among
  · cases found

theorem mem_of_items? {items : List Json} (found : (required? fields key >>= Json.items?) = some items) :
    (key, .list items) ∈ fields := by
  obtain ⟨v, present, listed⟩ := Option.bind_eq_some_iff.mp found
  cases v with
  | list items' =>
    cases listed
    exact mem_of_required? present
  | _ => cases listed

theorem mem_of_optional? {α : Type} {readValue : Json → Option α} {a : α}
    (found : optional? readValue fields key = some (some a)) : ∃ v, (key, v) ∈ fields ∧ readValue v = some a := by
  unfold optional? at found
  split at found
  · cases found
  · cases found
  · rename_i v _ kept
    obtain ⟨b, read, same⟩ := Option.map_eq_some_iff.mp found
    cases same
    have present : required? fields key = some v := by rw [required?, kept, Option.join_some]
    exact ⟨v, mem_of_required? present, read⟩
  · cases found

end

theorem exists_of_mapM {α β : Type} {f : α → Option β} {xs : List α} {ys : List β} (found : xs.mapM f = some ys) :
    ∀ y ∈ ys, ∃ x ∈ xs, f x = some y := by
  induction xs generalizing ys with
  | nil =>
    cases found
    exact List.forall_mem_nil _
  | cons x xs ih =>
    rw [List.mapM_cons] at found
    obtain ⟨y, first, found⟩ := Option.bind_eq_some_iff.mp found
    obtain ⟨rest, others, same⟩ := Option.bind_eq_some_iff.mp found
    cases same
    refine List.forall_mem_cons.mpr ⟨⟨x, List.mem_cons_self, first⟩, fun y' member => ?_⟩
    obtain ⟨x', among, read⟩ := ih others y' member
    exact ⟨x', List.mem_cons_of_mem x among, read⟩

theorem mem_of_trailing? {α : Type} {readValue : Json → Option α} {items rest : List Json} {a : Option α}
    (found : trailing? readValue items = some (a, rest)) :
    (∀ b, a = some b → ∃ v ∈ items, readValue v = some b) ∧ ∀ v ∈ rest, v ∈ items := by
  unfold trailing? at found
  split at found
  · cases found
    simp
  · cases found
    exact ⟨by simp, fun v => List.mem_cons_of_mem _⟩
  · obtain ⟨b, read, same⟩ := Option.map_eq_some_iff.mp found
    cases same
    refine ⟨?_, fun v => List.mem_cons_of_mem _⟩
    rintro b ⟨⟩
    exact ⟨_, List.mem_cons_self, read⟩

variable [Codec]

theorem Span.nesting_pos_of_ofJson? {v : Json} {s : Span} (read : Span.ofJson? v = some s) : 0 < v.nesting := by
  cases v with
  | object fields => exact Nat.succ_pos _
  | list items => exact Nat.succ_pos _
  | _ => cases read

/-- A place is written one level deep, and read of a value that is no less deep. -/
theorem room_of_placeOf? {fields : List (String × Json)} {loc : Option Span} {depth : Nat} (found : placeOf? fields = some loc)
    (room : ∀ v, ("loc", v) ∈ fields → 0 < v.nesting → 0 < depth) : ∀ s, loc = some s → 0 < depth := by
  rintro s rfl
  obtain ⟨v, present, read⟩ := mem_of_optional? found
  exact room v present (Span.nesting_pos_of_ofJson? read)

/-! ## Trees that fit -/

/-- A node that nests, written, no deeper than allowed, with finite numbers. -/
structure Node.Fits (depth : Nat) (n : Node) : Prop where
  nesting : n.toJson.nesting ≤ depth
  finite : ∀ x ∈ n.numbers, x.isFinite = true

/-- A declarator that nests, written, no deeper than allowed, with finite numbers. -/
structure Declarator.Fits (depth : Nat) (d : Declarator) : Prop where
  nesting : d.toJson.nesting ≤ depth
  finite : ∀ c ∈ d.parts, ∀ x ∈ c.numbers, x.isFinite = true

/-- A form whose fields nest no deeper than allowed, with finite numbers. -/
structure Form.Fits (depth : Nat) (form : Form) : Prop where
  nesting : ∀ field ∈ form.toFields, field.2.nesting ≤ depth
  number : ∀ x ∈ form.number?, x.isFinite = true
  finite : ∀ c ∈ form.parts, ∀ x ∈ c.numbers, x.isFinite = true

theorem Node.Fits.mono {n : Node} {depth depth' : Nat} (h : n.Fits depth) (le : depth ≤ depth') : n.Fits depth' :=
  ⟨Nat.le_trans h.nesting le, h.finite⟩

theorem Declarator.Fits.mono {d : Declarator} {depth depth' : Nat} (h : d.Fits depth) (le : depth ≤ depth') :
    d.Fits depth' :=
  ⟨Nat.le_trans h.nesting le, h.finite⟩

theorem Declarator.fits_of_parts {d : Declarator} {depth : Nat} (parts : ∀ c ∈ d.parts, c.Fits depth)
    (room : ∀ s, d.loc = some s → 0 < depth) : d.Fits (depth + 1) where
  nesting := Declarator.nesting_le.mpr
    ⟨Nat.succ_pos _, fun c part => (parts c part).nesting, nesting_placeField room⟩
  finite c part := (parts c part).finite

/-- What a form is made of fits where it is written: a part under its key, a list one level
    further in. -/
def Form.PartsFit (depth : Nat) : Form → Prop
  | .expression e | .unary _ e | .update _ e _ => e.Fits depth
  | .whileLoop e c | .doLoop e c | .binary _ e c | .logical _ e c | .assign _ e c | .member e c _ => e.Fits depth ∧ c.Fits depth
  | .choice e c c' => e.Fits depth ∧ c.Fits depth ∧ c'.Fits depth
  | .block ns | .sequence ns | .array ns => 0 < depth ∧ ∀ n ∈ ns, n.Fits (depth - 1)
  | .call e ns => e.Fits depth ∧ 0 < depth ∧ ∀ n ∈ ns, n.Fits (depth - 1)
  | .lambda ns body => (0 < depth ∧ ∀ n ∈ ns, n.Fits (depth - 1)) ∧ body.Fits depth
  | .function id ns body => id.Fits depth ∧ (0 < depth ∧ ∀ n ∈ ns, n.Fits (depth - 1)) ∧ body.Fits depth
  | .declaration ds => 0 < depth ∧ ∀ d ∈ ds, d.Fits (depth - 1)
  | .branch test c other => test.Fits depth ∧ c.Fits depth ∧ ∀ n ∈ other.toList, n.Fits depth
  | .forLoop start test next body => (∀ n ∈ start.toList, n.Fits depth) ∧ (∀ n ∈ test.toList, n.Fits depth) ∧
    (∀ n ∈ next.toList, n.Fits depth) ∧ body.Fits depth
  | .returnValue argument => ∀ n ∈ argument.toList, n.Fits depth
  | .literal v => ∀ x ∈ (Form.literal v).number?, x.isFinite = true
  | .breakLoop | .continueLoop | .identifier _ | .typeTag _ _ => True

theorem Literal.isFinite_of_ofJson? [LawfulCodec] {j : Json} {v : Literal} (read : Literal.ofJson? j = some v) :
    ∀ x ∈ (Form.literal v).number?, x.isFinite = true := by
  intro x given
  cases v with
  | bool b => cases given
  | number y =>
    cases given
    unfold Literal.ofJson? at read
    split at read
    · cases read
    · obtain ⟨x, number, same⟩ := Option.map_eq_some_iff.mp read
      cases same
      cases j with
      | number lexeme => exact LawfulCodec.isFinite_of_number? number
      | _ => cases number

section
variable {readNode : Json → Option Node} (reads : ∀ v n, readNode v = some n → n.Fits v.nesting)

section
variable {fields : List (String × Json)} {depth : Nat}
  (bound : ∀ field ∈ fields, field.1 ≠ "loc" → field.2.nesting ≤ depth) {key : String} (other : key ≠ "loc")
include reads bound other

theorem fits_of_nodeAt? {n : Node} (found : nodeAt? readNode fields key = some n) : n.Fits depth := by
  obtain ⟨v, present, read⟩ := Option.bind_eq_some_iff.mp found
  exact (reads v n read).mono (bound _ (mem_of_required? present) other)

theorem fits_of_nodesAt? {nodes : List Node} (found : nodesAt? readNode fields key = some nodes) :
    0 < depth ∧ ∀ n ∈ nodes, n.Fits (depth - 1) := by
  obtain ⟨items, listed, found⟩ := Option.bind_eq_some_iff.mp found
  obtain ⟨room, inside⟩ := nesting_list_le.mp (bound _ (mem_of_items? listed) other)
  refine ⟨room, fun n member => ?_⟩
  obtain ⟨v, among, read⟩ := exists_of_mapM found n member
  exact (reads v n read).mono (inside v among)

theorem fits_of_nodeAtIf? {n : Option Node} (found : nodeAtIf? readNode fields key = some n) :
    ∀ c ∈ n.toList, c.Fits depth := by
  intro c member
  rw [Option.mem_toList.mp member] at found
  obtain ⟨v, present, read⟩ := mem_of_optional? found
  exact (reads v c read).mono (bound _ present other)

end

include reads

/-- A declarator that is read of a value nests no deeper, and its numbers are finite. -/
theorem Declarator.fits_of_ofJson? {v : Json} {d : Declarator} (found : Declarator.ofJson? readNode v = some d) :
    d.Fits v.nesting := by
  cases v with
  | object fields =>
    have bound : ∀ field ∈ fields, field.2.nesting ≤ nestingFields fields := nestingFields_le.mp (Nat.le_refl _)
    have others : ∀ field ∈ fields, field.1 ≠ "loc" → field.2.nesting ≤ nestingFields fields :=
      fun field member _ => bound field member
    simp only [Declarator.ofJson?, Option.bind_eq_bind, Option.bind_eq_some_iff, Option.pure_def, Option.some.injEq] at found
    obtain ⟨id, named, initial, given, size, sized, loc, placed, rfl⟩ := found
    refine Declarator.fits_of_parts (Declarator.forall_mem_parts.mpr ⟨?_, ?_, ?_⟩) ?_
    · exact fits_of_nodeAt? reads others (by decide) named
    · exact fits_of_nodeAtIf? reads others (by decide) given
    · exact fits_of_nodeAtIf? reads others (by decide) sized
    · exact room_of_placeOf? placed fun v present deep => Nat.lt_of_lt_of_le deep (bound _ present)
  | list items =>
    cases items with
    | nil => cases found
    | cons first rest =>
      have bound : ∀ item ∈ first :: rest, item.nesting ≤ nestingItems (first :: rest) := nestingItems_le.mp (Nat.le_refl _)
      obtain ⟨boundFirst, boundRest⟩ := List.forall_mem_cons.mp bound
      simp only [Declarator.ofJson?, Option.bind_eq_bind, Option.bind_eq_some_iff, Option.pure_def] at found
      obtain ⟨id, named, ⟨initial, rest₁⟩, given, ⟨size, rest₂⟩, sized, ⟨loc, rest₃⟩, placed, found⟩ := found
      split at found
      · cases found
        obtain ⟨given, later⟩ := mem_of_trailing? given
        obtain ⟨sized, later'⟩ := mem_of_trailing? sized
        obtain ⟨placed, -⟩ := mem_of_trailing? placed
        refine Declarator.fits_of_parts (Declarator.forall_mem_parts.mpr ⟨?_, fun c member => ?_, fun c member => ?_⟩)
          fun s placedAt => ?_
        · exact (reads first id named).mono boundFirst
        · obtain ⟨w, among, read⟩ := given c (Option.mem_toList.mp member)
          exact (reads w c read).mono (boundRest w among)
        · obtain ⟨w, among, read⟩ := sized c (Option.mem_toList.mp member)
          exact (reads w c read).mono (boundRest w (later w among))
        · obtain ⟨w, among, read⟩ := placed s placedAt
          exact Nat.lt_of_lt_of_le (Span.nesting_pos_of_ofJson? read) (boundRest w (later w (later' w among)))
      · cases found
  | _ => cases found

variable [LawfulCodec]

/-- The parts of a form that is read of fields fit where they are written. -/
theorem Form.partsFit_of_ofFields? {fields : List (String × Json)} {depth : Nat} {label : Label} {form : Form}
    (bound : ∀ field ∈ fields, field.1 ≠ "loc" → field.2.nesting ≤ depth)
    (found : Form.ofFields? readNode fields label = some form) : form.PartsFit depth := by
  have node {key : String} {n : Node} (found : nodeAt? readNode fields key = some n) (other : key ≠ "loc") : n.Fits depth :=
    fits_of_nodeAt? reads bound other found
  have nodes {key : String} {ns : List Node} (found : nodesAt? readNode fields key = some ns) (other : key ≠ "loc") :
      0 < depth ∧ ∀ n ∈ ns, n.Fits (depth - 1) := fits_of_nodesAt? reads bound other found
  have option {key : String} {n : Option Node} (found : nodeAtIf? readNode fields key = some n) (other : key ≠ "loc") :
      ∀ c ∈ n.toList, c.Fits depth := fits_of_nodeAtIf? reads bound other found
  cases label <;> simp only [Form.ofFields?, Option.bind_eq_bind, Option.bind_eq_some_iff, Option.pure_def, Option.some.injEq] at found
  case blockStatement =>
    obtain ⟨body, inside, rfl⟩ := found
    exact nodes inside (by decide)
  case expressionStatement =>
    obtain ⟨e, inside, rfl⟩ := found
    exact node inside (by decide)
  case variableDeclaration =>
    obtain ⟨items, listed, declarators, read, rfl⟩ := found
    have member := mem_of_items? (Option.bind_eq_some_iff.mpr listed)
    obtain ⟨room, inside⟩ := nesting_list_le.mp (bound _ member (show "declarations" ≠ "loc" by decide))
    refine ⟨room, fun d member => ?_⟩
    obtain ⟨v, among, declared⟩ := exists_of_mapM read d member
    exact (Declarator.fits_of_ofJson? reads declared).mono (inside v among)
  case functionDeclaration =>
    obtain ⟨id, named, params, inside, body, does, rfl⟩ := found
    exact ⟨node named (by decide), nodes inside (by decide), node does (by decide)⟩
  case ifStatement =>
    obtain ⟨test, tests, consequent, does, alternate, otherwise, rfl⟩ := found
    exact ⟨node tests (by decide), node does (by decide), option otherwise (by decide)⟩
  case whileStatement =>
    obtain ⟨test, tests, body, does, rfl⟩ := found
    exact ⟨node tests (by decide), node does (by decide)⟩
  case doWhileStatement =>
    obtain ⟨body, does, test, tests, rfl⟩ := found
    exact ⟨node does (by decide), node tests (by decide)⟩
  case forStatement =>
    obtain ⟨start, starts, test, tests, next, goesOn, body, does, rfl⟩ := found
    exact ⟨option starts (by decide), option tests (by decide), option goesOn (by decide), node does (by decide)⟩
  case breakStatement => cases found; trivial
  case continueStatement => cases found; trivial
  case returnStatement =>
    obtain ⟨argument, given, rfl⟩ := found
    exact option given (by decide)
  case literal =>
    obtain ⟨v, ⟨j, -, read⟩, rfl⟩ := found
    exact Literal.isFinite_of_ofJson? read
  case identifier =>
    obtain ⟨name, -, rfl⟩ := found
    trivial
  case binaryExpression =>
    obtain ⟨op, -, left, first, right, second, rfl⟩ := found
    exact ⟨node first (by decide), node second (by decide)⟩
  case logicalExpression =>
    obtain ⟨op, -, left, first, right, second, rfl⟩ := found
    exact ⟨node first (by decide), node second (by decide)⟩
  case unaryExpression =>
    obtain ⟨op, -, argument, given, rfl⟩ := found
    exact node given (by decide)
  case assignmentExpression =>
    obtain ⟨op, -, left, first, right, second, rfl⟩ := found
    exact ⟨node first (by decide), node second (by decide)⟩
  case updateExpression =>
    obtain ⟨op, -, argument, given, before, -, rfl⟩ := found
    exact node given (by decide)
  case callExpression =>
    obtain ⟨callee, called, arguments, given, rfl⟩ := found
    exact ⟨node called (by decide), nodes given (by decide)⟩
  case conditionalExpression =>
    obtain ⟨test, tests, consequent, first, alternate, second, rfl⟩ := found
    exact ⟨node tests (by decide), node first (by decide), node second (by decide)⟩
  case sequenceExpression =>
    obtain ⟨expressions, inside, rfl⟩ := found
    exact nodes inside (by decide)
  case memberExpression =>
    obtain ⟨object, first, property, second, computed, -, rfl⟩ := found
    exact ⟨node first (by decide), node second (by decide)⟩
  case arrayExpression =>
    obtain ⟨elements, inside, rfl⟩ := found
    exact nodes inside (by decide)
  case functionExpression =>
    obtain ⟨params, inside, body, does, rfl⟩ := found
    exact ⟨nodes inside (by decide), node does (by decide)⟩
  case typeTag =>
    obtain ⟨name, -, pointers, -, rfl⟩ := found
    trivial
  case program => cases found

/-- A form that is read of fields nests no deeper, and its numbers are finite. -/
theorem Form.fits_of_ofFields? {fields : List (String × Json)} {depth : Nat} {label : Label} {form : Form}
    (bound : ∀ field ∈ fields, field.1 ≠ "loc" → field.2.nesting ≤ depth)
    (found : Form.ofFields? readNode fields label = some form) : form.Fits depth := by
  have built := Form.partsFit_of_ofFields? reads bound found
  cases form with
  | literal v =>
    refine ⟨List.forall_mem_singleton.mpr ?_, built, List.forall_mem_nil _⟩
    cases v <;> simp [Literal.toJson]
  | _ =>
    refine ⟨?_, ?_, ?_⟩ <;>
      simp only [Form.PartsFit, Form.toFields, Form.number?, Form.parts, nesting_list_le, writeNodes_eq, writeDeclarators_eq,
        writeOption_eq, List.forall_mem_cons, List.forall_mem_append, List.forall_mem_map, List.forall_mem_flatMap,
        nesting_text, nesting_bool, nesting_ofNat] at built ⊢ <;>
      grind [Node.Fits, Declarator.Fits]

/-- A node that is read of fields nests one level deeper than they do, and its numbers are finite. What is under
    `loc` may be as deep as it likes, since only its line and column are kept. -/
theorem Node.fits_of_ofFields? {fields : List (String × Json)} {depth : Nat} {n : Node}
    (bound : ∀ field ∈ fields, field.1 ≠ "loc" → field.2.nesting ≤ depth)
    (room : ∀ v, ("loc", v) ∈ fields → 0 < v.nesting → 0 < depth)
    (found : Node.ofFields? readNode fields = some n) : n.Fits (depth + 1) := by
  unfold Node.ofFields? at found
  simp only [Option.bind_eq_bind, Option.bind_eq_some_iff, Option.pure_def, Option.some.injEq] at found
  obtain ⟨label, -, form, built, loc, placed, rfl⟩ := found
  have fits : form.Fits depth := Form.fits_of_ofFields? reads bound built
  have place : ∀ s, loc = some s → 0 < depth := room_of_placeOf? placed room
  exact ⟨Node.nesting_le.mpr ⟨fits.nesting, nesting_placeField place⟩,
    Node.forall_mem_numbers.mpr ⟨fits.number, fits.finite⟩⟩

end

/-- A node that is read of a value nests no deeper, and its numbers are finite. -/
theorem Node.fits_of_ofJsonWithin? [LawfulCodec] (fuel : Nat) : ∀ v n, Node.ofJsonWithin? fuel v = some n → n.Fits v.nesting := by
  induction fuel with
  | zero => exact fun v n found => by cases found
  | succ fuel ih =>
    intro v n found
    cases v with
    | object fields =>
      have bound : ∀ field ∈ fields, field.2.nesting ≤ nestingFields fields := nestingFields_le.mp (Nat.le_refl _)
      exact Node.fits_of_ofFields? ih (fun field member _ => bound field member)
        (fun v member deep => Nat.lt_of_lt_of_le deep (bound _ member)) found
    | _ => cases found

/-- At the top only what stands outside of places is bounded by the levels that are left. -/
theorem Node.fits_of_ofJson? [LawfulCodec] {levels : Nat} (room : 0 < levels) {v : Json} {n : Node}
    (found : Node.ofJson? levels v = some n) : n.Fits (levels + 1) := by
  unfold Node.ofJson? at found
  split at found
  · rename_i fields
    split at found
    · rename_i readable
      refine Node.fits_of_ofFields? (Node.fits_of_ofJsonWithin? levels) (fun field member other => ?_)
        (fun _ _ _ => room) found
      have read := List.all_eq_true.mp readable field member
      rw [Bool.or_eq_true, beq_iff_eq] at read
      exact nesting_le_of_readable (read.resolve_left other)
    · cases found
  · cases found

/-- A program can be written as a text that can be read: it nests no deeper than a text may, and its numbers are
    finite. -/
structure Program.Fits (p : Program) : Prop where
  nesting : p.toJson.nesting ≤ Codec.maxNesting
  finite : ∀ x ∈ p.numbers, x.isFinite = true

theorem Program.fits_of_nodes [LawfulCodec] {p : Program} (nodes : ∀ n ∈ p.body, n.Fits (Codec.maxNesting - 2)) : p.Fits where
  nesting := by
    simp only [Program.toJson, nesting_object_le, nesting_list_le, writeNodes_eq, List.forall_mem_cons, List.forall_mem_map]
    rw [LawfulCodec.maxNesting_eq] at nodes ⊢
    exact ⟨by decide, ⟨by decide, fun n member => (nodes n member).nesting⟩, nesting_placeField fun _ _ => by decide⟩
  finite := by
    simp only [Program.numbers, List.forall_mem_flatMap]
    exact fun n member => (nodes n member).finite

/-- What is read as a program can be written as a text that can be read. -/
theorem Program.fits_of_ofJson? [LawfulCodec] {j : Json} {p : Program} (found : Program.ofJson? j = some p) : p.Fits := by
  have listed {items : List Json} {nodes : List Node} (read : items.mapM (Node.ofJson? (Codec.maxNesting - 3)) = some nodes) :
      ∀ n ∈ nodes, n.Fits (Codec.maxNesting - 2) := by
    intro n member
    obtain ⟨v, -, read⟩ := exists_of_mapM read n member
    have levels : Codec.maxNesting - 2 = Codec.maxNesting - 3 + 1 := by rw [LawfulCodec.maxNesting_eq]
    rw [levels]
    exact Node.fits_of_ofJson? (by rw [LawfulCodec.maxNesting_eq]; decide) read
  unfold Program.ofJson? at found
  split at found
  · simp only [Option.bind_eq_bind, Option.bind_eq_some_iff, Option.pure_def, Option.some.injEq] at found
    obtain ⟨body, inside, loc, -, rfl⟩ := found
    obtain ⟨items, -, read⟩ := Option.bind_eq_some_iff.mp inside
    exact Program.fits_of_nodes (listed read)
  · simp only [Option.bind_eq_bind, Option.bind_eq_some_iff, Option.pure_def] at found
    obtain ⟨body, read, ⟨loc, rest⟩, -, found⟩ := found
    split at found
    · cases found
      exact Program.fits_of_nodes (listed read)
    · cases found
  · cases found

end MiniC
