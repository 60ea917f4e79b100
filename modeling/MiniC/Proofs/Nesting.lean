import MiniC.Proofs.JsonTree

/-!
# Nesting

How deep the values nest that trees are written as, and the numbers of a tree. A node whose numbers
are read back and which nests no deeper than allowed can be read in full (`Node.readable_toJson`).
-/

namespace MiniC
namespace Json

mutual

/-- How many lists and objects stand inside one another in a value. -/
def nesting : Json → Nat
  | .list items => nestingItems items + 1
  | .object fields => nestingFields fields + 1
  | _ => 0

@[inherit_doc nesting]
def nestingItems : List Json → Nat
  | [] => 0
  | item :: rest => max item.nesting (nestingItems rest)

@[inherit_doc nesting]
def nestingFields : List (String × Json) → Nat
  | [] => 0
  | (_, value) :: rest => max value.nesting (nestingFields rest)

end

@[simp] theorem nesting_text (s : String) : (Json.text s).nesting = 0 := rfl
@[simp] theorem nesting_bool (b : Bool) : (Json.bool b).nesting = 0 := rfl

variable {depth : Nat}

theorem nestingItems_le {items : List Json} : nestingItems items ≤ depth ↔ ∀ item ∈ items, item.nesting ≤ depth := by
  induction items with
  | nil => simp [nestingItems]
  | cons item rest ih => simp [nestingItems, Nat.max_le, ih]

theorem nestingFields_le {fields : List (String × Json)} :
    nestingFields fields ≤ depth ↔ ∀ field ∈ fields, field.2.nesting ≤ depth := by
  induction fields with
  | nil => simp [nestingFields]
  | cons field rest ih =>
    obtain ⟨key, value⟩ := field
    simp [nestingFields, Nat.max_le, ih]

theorem nesting_list_le {items : List Json} :
    (Json.list items).nesting ≤ depth ↔ 0 < depth ∧ ∀ item ∈ items, item.nesting ≤ depth - 1 := by
  rw [← nestingItems_le, nesting]
  omega

theorem nesting_object_le {fields : List (String × Json)} :
    (Json.object fields).nesting ≤ depth ↔ 0 < depth ∧ ∀ field ∈ fields, field.2.nesting ≤ depth - 1 := by
  rw [← nestingFields_le, nesting]
  omega

variable [Codec]

@[simp] theorem nesting_ofNat (n : Nat) : (ofNat n).nesting = 0 := rfl

@[simp] theorem nesting_ofNumber (x : Float) : (ofNumber x).nesting = 0 := by
  unfold ofNumber
  split <;> rfl

theorem readableItems_iff {items : List Json} :
    readableItems depth items = true ↔ ∀ item ∈ items, item.readable depth = true := by
  induction items with
  | nil => simp [readableItems]
  | cons item rest ih => simp [readableItems, ih]

theorem readableFields_iff {fields : List (String × Json)} :
    readableFields depth fields = true ↔ ∀ field ∈ fields, field.2.readable depth = true := by
  induction fields with
  | nil => simp [readableFields]
  | cons field rest ih =>
    obtain ⟨key, value⟩ := field
    simp [readableFields, ih]

theorem readable_list {items : List Json} :
    (Json.list items).readable depth = true ↔ 0 < depth ∧ ∀ item ∈ items, item.readable (depth - 1) = true := by
  rw [readable, Bool.and_eq_true, decide_eq_true_eq, readableItems_iff]

theorem readable_object {fields : List (String × Json)} :
    (Json.object fields).readable depth = true ↔ 0 < depth ∧ ∀ field ∈ fields, field.2.readable (depth - 1) = true := by
  rw [readable, Bool.and_eq_true, decide_eq_true_eq, readableFields_iff]

theorem readable_text (s : String) : (Json.text s).readable depth = true := rfl
theorem readable_bool (b : Bool) : (Json.bool b).readable depth = true := rfl

theorem readable_ofNat [LawfulCodec] (n : UInt32) : (ofNat n.toNat).readable depth = true :=
  LawfulCodec.isSome_number?_count n

mutual

/-- A value that can be read in full nests no deeper than allowed. -/
theorem nesting_le_of_readable : ∀ {j : Json} {depth : Nat}, j.readable depth = true → j.nesting ≤ depth
  | .list items, depth, h => by
    obtain ⟨room, inside⟩ : 0 < depth ∧ readableItems (depth - 1) items = true := by
      simpa [readable] using h
    have := nestingItems_le_of_readable inside
    rw [nesting]
    omega
  | .object fields, depth, h => by
    obtain ⟨room, inside⟩ : 0 < depth ∧ readableFields (depth - 1) fields = true := by
      simpa [readable] using h
    have := nestingFields_le_of_readable inside
    rw [nesting]
    omega
  | .null, _, _ | .bool _, _, _ | .number _, _, _ | .text _, _, _ | .broken, _, _ => Nat.zero_le _

@[inherit_doc nesting_le_of_readable]
theorem nestingItems_le_of_readable : ∀ {items : List Json} {depth : Nat}, readableItems depth items = true →
    nestingItems items ≤ depth
  | [], _, _ => Nat.zero_le _
  | item :: rest, depth, h => by
    obtain ⟨first, others⟩ := Bool.and_eq_true_iff.mp h
    exact Nat.max_le.mpr ⟨nesting_le_of_readable first, nestingItems_le_of_readable others⟩

@[inherit_doc nesting_le_of_readable]
theorem nestingFields_le_of_readable : ∀ {fields : List (String × Json)} {depth : Nat},
    readableFields depth fields = true → nestingFields fields ≤ depth
  | [], _, _ => Nat.zero_le _
  | (_, value) :: rest, depth, h => by
    obtain ⟨first, others⟩ := Bool.and_eq_true_iff.mp h
    exact Nat.max_le.mpr ⟨nesting_le_of_readable first, nestingFields_le_of_readable others⟩

end

end Json

/-! ## Numbers of a tree -/

/-- The number literals of a node. -/
def Node.numbers (n : Node) : List Float :=
  n.form.number?.toList ++ n.form.parts.attach.flatMap fun c => c.1.numbers
termination_by sizeOf n
decreasing_by exact Node.sizeOf_parts c.2

theorem Node.forall_mem_numbers {n : Node} {P : Float → Prop} :
    (∀ x ∈ n.numbers, P x) ↔ (∀ x ∈ n.form.number?, P x) ∧ ∀ c ∈ n.form.parts, ∀ x ∈ c.numbers, P x := by
  rw [Node.numbers]
  simp only [List.forall_mem_append, List.forall_mem_flatMap, Option.mem_toList, List.mem_attach, Subtype.forall, true_imp_iff]
  rfl

/-- The number literals of a program. -/
def Program.numbers (p : Program) : List Float := p.body.flatMap (·.numbers)

open Json
variable [Codec]

/-! ## Written trees -/

theorem writeNodes_eq (nodes : List Node) : writeNodes nodes = nodes.map (·.toJson) := by
  induction nodes with
  | nil => rfl
  | cons n rest ih => rw [writeNodes, ih, List.map_cons]

theorem writeDeclarators_eq (declarators : List Declarator) :
    writeDeclarators declarators = declarators.map (·.toJson) := by
  induction declarators with
  | nil => rfl
  | cons d rest ih => rw [writeDeclarators, ih, List.map_cons]

theorem writeOption_eq (key : String) (n : Option Node) : writeOption key n = n.toList.map fun c => (key, c.toJson) := by
  cases n <;> simp [writeOption]

theorem Span.nesting_toJson (s : Span) : s.toJson.nesting = 1 := by
  simp [Span.toJson, nesting, nestingFields]

section
variable {depth : Nat}

theorem nesting_placeField {loc : Option Span} (room : ∀ s, loc = some s → 0 < depth) :
    ∀ field ∈ placeField loc, field.2.nesting ≤ depth := by
  cases loc with
  | none => exact List.forall_mem_nil _
  | some s =>
    simp only [placeField, List.forall_mem_singleton, s.nesting_toJson]
    exact room s rfl

theorem Declarator.nesting_le {d : Declarator} : d.toJson.nesting ≤ depth ↔
    0 < depth ∧ (∀ c ∈ d.parts, c.toJson.nesting ≤ depth - 1) ∧ ∀ field ∈ placeField d.loc, field.2.nesting ≤ depth - 1 := by
  simp only [d.toJson_eq, nesting_object_le, Declarator.toFields, Declarator.forall_mem_parts, writeOption_eq,
    List.cons_append, List.forall_mem_cons, List.forall_mem_append, List.forall_mem_map, and_assoc]

theorem Node.nesting_le {n : Node} : n.toJson.nesting ≤ depth + 1 ↔
    (∀ field ∈ n.form.toFields, field.2.nesting ≤ depth) ∧ ∀ field ∈ placeField n.loc, field.2.nesting ≤ depth := by
  rw [n.toJson_eq, nesting_object_le, Node.toFields]
  simp only [List.cons_append, List.forall_mem_cons, List.forall_mem_append, Nat.add_sub_cancel]
  exact ⟨fun h => h.2.2, fun h => ⟨Nat.succ_pos _, Nat.zero_le _, h⟩⟩

theorem Node.nesting_pos (n : Node) : 0 < n.toJson.nesting := by
  rw [n.toJson_eq, nesting]
  exact Nat.succ_pos _

/-- The parts of a node nest no deeper than the fields of its form. -/
theorem Form.parts_nesting {form : Form} (fits : ∀ field ∈ form.toFields, field.2.nesting ≤ depth) :
    ∀ c ∈ form.parts, c.toJson.nesting ≤ depth := by
  have inside {d : Declarator} (fits : d.toJson.nesting ≤ depth - 1) (c : Node) (part : c ∈ d.parts) :
      c.toJson.nesting ≤ depth := by
    have := (Declarator.nesting_le.mp fits).2.1 c part
    omega
  have listed {nodes : List Node} (fits : ∀ n ∈ nodes, n.toJson.nesting ≤ depth - 1) (c : Node) (member : c ∈ nodes) :
      c.toJson.nesting ≤ depth := by
    have := fits c member
    omega
  cases form <;> simp only [Form.toFields, Form.parts, nesting_list_le, writeNodes_eq, writeDeclarators_eq, writeOption_eq,
    List.forall_mem_cons, List.forall_mem_append, List.forall_mem_map, List.forall_mem_flatMap] at fits ⊢ <;> grind

/-! ## What is written can be read -/

theorem readable_placeField [LawfulCodec] {loc : Option Span} (fits : ∀ field ∈ placeField loc, field.2.nesting ≤ depth) :
    ∀ field ∈ placeField loc, field.2.readable depth = true := by
  cases loc with
  | none => exact List.forall_mem_nil _
  | some s =>
    simp only [placeField, List.forall_mem_singleton, s.nesting_toJson] at fits ⊢
    rw [Span.toJson, readable_object]
    simp [readable_ofNat, Nat.lt_of_succ_le fits]

theorem Literal.readable_toJson {v : Literal} (number : ∀ x ∈ (Form.literal v).number?, (ofNumber x).number? = some x) :
    v.toJson.readable depth = true := by
  cases v with
  | bool b => rfl
  | number x =>
    have read := number x rfl
    obtain ⟨lexeme, spelled⟩ := exists_lexeme read
    show (ofNumber x).readable depth = true
    rw [spelled] at read ⊢
    exact Option.isSome_of_eq_some read

theorem Declarator.readable_toJson [LawfulCodec] {d : Declarator}
    (parts : ∀ c ∈ d.parts, ∀ depth, c.toJson.nesting ≤ depth → c.toJson.readable depth = true)
    (fits : d.toJson.nesting ≤ depth) : d.toJson.readable depth = true := by
  obtain ⟨room, inside, place⟩ := Declarator.nesting_le.mp fits
  have readable : ∀ c ∈ d.parts, c.toJson.readable (depth - 1) = true := fun c part => parts c part _ (inside c part)
  rw [Declarator.forall_mem_parts] at readable
  simp only [d.toJson_eq, readable_object, Declarator.toFields, writeOption_eq, List.cons_append, List.forall_mem_cons,
    List.forall_mem_append, List.forall_mem_map]
  exact ⟨room, readable.1, readable.2, readable_placeField place⟩

theorem Form.readable_toFields [LawfulCodec] {form : Form}
    (parts : ∀ c ∈ form.parts, ∀ depth, c.toJson.nesting ≤ depth → c.toJson.readable depth = true)
    (number : ∀ x ∈ form.number?, (ofNumber x).number? = some x) (fits : ∀ field ∈ form.toFields, field.2.nesting ≤ depth) :
    ∀ field ∈ form.toFields, field.2.readable depth = true := by
  cases form with
  | literal v => exact List.forall_mem_singleton.mpr (v.readable_toJson number)
  | declaration declarators =>
    simp only [Form.toFields, Form.parts, nesting_list_le, readable_list, writeDeclarators_eq, List.forall_mem_flatMap,
      List.forall_mem_singleton, List.forall_mem_map] at parts fits ⊢
    exact ⟨fits.1, fun d among => d.readable_toJson (parts d among) (fits.2 d among)⟩
  | _ =>
    simp only [Form.toFields, Form.parts, nesting_list_le, readable_list, writeNodes_eq, writeOption_eq, List.mem_nil_iff,
      List.forall_mem_cons, List.forall_mem_append, List.forall_mem_map, readable_text, readable_bool, readable_ofNat] at parts fits ⊢
    grind

end

/-- A node can be read in full if its numbers are read back and it nests no deeper than allowed. -/
theorem Node.readable_toJson [LawfulCodec] {n : Node} (back : ∀ x ∈ n.numbers, (ofNumber x).number? = some x) :
    ∀ depth, n.toJson.nesting ≤ depth → n.toJson.readable depth = true := by
  induction n using Node.inductParts with
  | step n ih =>
    intro depth fits
    obtain ⟨number, parts⟩ := Node.forall_mem_numbers.mp back
    obtain ⟨depth, rfl⟩ : ∃ k, depth = k + 1 := Nat.exists_eq_add_one.mpr (Nat.lt_of_lt_of_le n.nesting_pos fits)
    obtain ⟨inner, place⟩ := Node.nesting_le.mp fits
    rw [n.toJson_eq, readable_object, Node.toFields]
    simp only [List.cons_append, List.forall_mem_cons, List.forall_mem_append, Nat.add_sub_cancel]
    exact ⟨Nat.succ_pos _, readable_text _, Form.readable_toFields (fun c part => ih c part (parts c part)) number inner,
      readable_placeField place⟩

end MiniC
