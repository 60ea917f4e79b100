import MiniC.Tree.Reading
import MiniC.Tree.Writing
import MiniC.Proofs.Parts

/-!
# Fields of trees

Every field that is written for a form, a declarator or a place is found again under its key,
so a node whose parts are read back is read back itself (`Node.ofFields?_toFields`). Nothing is
said here of how deep nodes nest: the parts are read by any function.
-/

namespace MiniC
open Json

theorem BinaryOp.ofSymbol?_symbol (op : BinaryOp) : ofSymbol? op.symbol = some op := by cases op <;> decide
theorem LogicalOp.ofSymbol?_symbol (op : LogicalOp) : ofSymbol? op.symbol = some op := by cases op <;> decide
theorem UnaryOp.ofSymbol?_symbol (op : UnaryOp) : ofSymbol? op.symbol = some op := by cases op <;> decide
theorem AssignOp.ofSymbol?_symbol (op : AssignOp) : ofSymbol? op.symbol = some op := by cases op <;> decide
theorem UpdateOp.ofSymbol?_symbol (op : UpdateOp) : ofSymbol? op.symbol = some op := by cases op <;> decide

/-! ## Finding fields -/

theorem required?_eq {fields : List (String × Json)} {key : String} {v : Json}
    (kept : fields.filter (·.1 == key) = [(key, v)]) : required? fields key = some v := by
  unfold required? field?
  rw [kept]
  rfl

variable [Codec]

section
variable {fields : List (String × Json)} {key : String}

theorem filter_placeField (other : key ≠ "loc") (loc : Option Span) : (placeField loc).filter (·.1 == key) = [] := by
  cases loc with
  | none => rfl
  | some s => simp [placeField, other.symm]

theorem filter_writeOption (key' : String) (n : Option Node) :
    (writeOption key' n).filter (·.1 == key) = if key' = key then writeOption key' n else [] := by
  cases n with
  | none => simp [writeOption]
  | some n => by_cases same : key' = key <;> simp [writeOption, same]

/-- The label and the place of a node are not among the fields of its form. -/
theorem field?_framed (label : Json) (loc : Option Span) (typed : key ≠ "type") (placed : key ≠ "loc") :
    field? (("type", label) :: fields ++ placeField loc) key = field? fields key := by
  unfold field?
  rw [List.cons_append, List.filter_cons, if_neg (by simpa using typed.symm), List.filter_append,
    filter_placeField placed, List.append_nil]

variable {readNode : Json → Option Node}

theorem mapM_writeNodes {nodes : List Node} (back : ∀ n ∈ nodes, readNode n.toJson = some n) :
    (writeNodes nodes).mapM readNode = some nodes := by
  induction nodes with
  | nil => rfl
  | cons n rest ih =>
    obtain ⟨first, others⟩ := List.forall_mem_cons.mp back
    simp [writeNodes, first, ih others]

/-- A part that may be missing is found as it was written. -/
theorem nodeAtIf?_eq {n : Option Node} (kept : fields.filter (·.1 == key) = writeOption key n)
    (back : ∀ c ∈ n.toList, readNode c.toJson = some c) : nodeAtIf? readNode fields key = some n := by
  unfold nodeAtIf? optional? field?
  rw [kept]
  cases n with
  | none => rfl
  | some n =>
    -- What is under the key is an object and not null, so it is read.
    have read := back n List.mem_cons_self
    obtain ⟨form, loc⟩ := n
    rw [Node.toJson] at read
    simp only [writeOption, Node.toJson, read]
    rfl

/-- What is read as a form depends only on the fields that forms have. -/
theorem Form.ofFields?_congr {fields' : List (String × Json)}
    (same : ∀ key, key ≠ "type" → key ≠ "loc" → field? fields key = field? fields' key) (label : Label) :
    Form.ofFields? readNode fields label = Form.ofFields? readNode fields' label := by
  cases label <;> simp [Form.ofFields?, nodeAt?, nodesAt?, nodeAtIf?, optional?, operator?, pointers?, required?, same]

end

/-! ## Labels, places, literals and declarators -/

theorem Label.ofJson?_name (form : Form) : Label.ofJson? (.text form.label.name) = some form.label := by
  have named : ∀ l ∈ Label.ofNodes, Label.ofName? l.name = some l := by decide
  exact named _ (by cases form <;> simp [Form.label, Label.ofNodes])

/-- A count is read as itself. -/
theorem Json.count32?_ofNat [LawfulCodec] (n : UInt32) : (ofNat n.toNat).count32? = some n := by
  show ((Codec.nat? (Codec.count n.toNat) >>= fun m => if m < pow2 32 then some m else none).map UInt32.ofNat) = _
  rw [LawfulCodec.nat?_count]
  show ((if n.toNat < 2 ^ 32 then some n.toNat else none).map UInt32.ofNat) = some n
  rw [if_pos n.toNat_lt, Option.map_some, UInt32.ofNat_toNat]

theorem Span.ofJson?_toJson [LawfulCodec] (s : Span) : Span.ofJson? s.toJson = some s := by
  simp [Span.toJson, Span.ofJson?, required?, field?, count32?_ofNat]

theorem placeOf?_eq [LawfulCodec] {fields : List (String × Json)} {loc : Option Span}
    (kept : fields.filter (·.1 == "loc") = placeField loc) : placeOf? fields = some loc := by
  unfold placeOf? optional? field?
  rw [kept]
  cases loc with
  | none => rfl
  | some s =>
    have read := s.ofJson?_toJson
    unfold Span.toJson at read
    simp only [placeField, Span.toJson, read]
    rfl

/-- The number of a form, if it is that of a literal. -/
def Form.number? : Form → Option Float
  | .literal (.number x) => some x
  | _ => none

/-- A number that is read back is written as a numeral and not as null. -/
theorem exists_lexeme {x : Float} (back : (ofNumber x).number? = some x) : ∃ lexeme, ofNumber x = .number lexeme := by
  unfold ofNumber at back ⊢
  split
  · exact ⟨_, rfl⟩
  · rename_i infinite
    rw [if_neg infinite] at back
    cases back

theorem Literal.ofJson?_toJson {v : Literal} (back : ∀ x ∈ (Form.literal v).number?, (ofNumber x).number? = some x) :
    Literal.ofJson? v.toJson = some v := by
  cases v with
  | bool b => rfl
  | number x =>
    have read := back x rfl
    obtain ⟨lexeme, spelled⟩ := exists_lexeme read
    rw [spelled] at read
    show (Literal.ofJson? (ofNumber x)) = _
    rw [spelled]
    show (Json.number lexeme).number?.map Literal.number = _
    rw [read]
    rfl

/-- The fields of a declarator. -/
def Declarator.toFields (d : Declarator) : List (String × Json) :=
  ("id", d.id.toJson) :: writeOption "init" d.initial ++ writeOption "size" d.size ++ placeField d.loc

theorem Declarator.toJson_eq (d : Declarator) : d.toJson = .object d.toFields := by
  obtain ⟨id, initial, size, loc⟩ := d
  rw [Declarator.toJson]
  rfl

/-- No field of a form has the key of the label or that of the place. -/
theorem Form.key_ne {form : Form} {field : String × Json} (member : field ∈ form.toFields) :
    field.1 ≠ "type" ∧ field.1 ≠ "loc" := by
  have optional {key : String} {n : Option Node} (member : field ∈ writeOption key n) : field.1 = key := by
    cases n with
    | none => cases member
    | some n => simp_all [writeOption]
  cases form <;> simp only [Form.toFields, List.mem_append, List.mem_cons, List.not_mem_nil, or_false] at member <;> grind

/-- The fields of a node. -/
def Node.toFields (n : Node) : List (String × Json) :=
  ("type", .text n.form.label.name) :: n.form.toFields ++ placeField n.loc

theorem Node.toJson_eq (n : Node) : n.toJson = .object n.toFields := by
  obtain ⟨form, loc⟩ := n
  rw [Node.toJson]
  rfl

section
variable [LawfulCodec] {readNode : Json → Option Node}

theorem Declarator.ofJson?_toJson {d : Declarator} (back : ∀ c ∈ d.parts, readNode c.toJson = some c) :
    Declarator.ofJson? readNode d.toJson = some d := by
  obtain ⟨idRead, initialRead, sizeRead⟩ := Declarator.forall_mem_parts.mp back
  have named : nodeAt? readNode d.toFields "id" = some d.id := by
    simp [nodeAt?, required?, field?, Declarator.toFields, filter_writeOption, filter_placeField, idRead]
  have initially : nodeAtIf? readNode d.toFields "init" = some d.initial :=
    nodeAtIf?_eq (by simp [Declarator.toFields, filter_writeOption, filter_placeField]) initialRead
  have sized : nodeAtIf? readNode d.toFields "size" = some d.size :=
    nodeAtIf?_eq (by simp [Declarator.toFields, filter_writeOption, filter_placeField]) sizeRead
  have placed : placeOf? d.toFields = some d.loc :=
    placeOf?_eq (by cases place : d.loc <;> simp [Declarator.toFields, filter_writeOption, placeField, place])
  rw [d.toJson_eq]
  simp only [Declarator.ofJson?, named, initially, sized, placed]
  cases d
  rfl

theorem mapM_writeDeclarators {declarators : List Declarator}
    (back : ∀ d ∈ declarators, ∀ c ∈ d.parts, readNode c.toJson = some c) :
    (writeDeclarators declarators).mapM (Declarator.ofJson? readNode) = some declarators := by
  induction declarators with
  | nil => rfl
  | cons d rest ih =>
    obtain ⟨first, others⟩ := List.forall_mem_cons.mp back
    simp [writeDeclarators, d.ofJson?_toJson first, ih others]

/-! ## Forms and nodes -/

/-- The fields of a form are read as the form. -/
theorem Form.ofFields?_toFields {form : Form} (back : ∀ c ∈ form.parts, readNode c.toJson = some c)
    (number : ∀ x ∈ form.number?, (ofNumber x).number? = some x) :
    Form.ofFields? readNode form.toFields form.label = some form := by
  have option {key : String} {n : Option Node} (kept : form.toFields.filter (·.1 == key) = writeOption key n)
      (parts : ∀ c ∈ n.toList, c ∈ form.parts) : nodeAtIf? readNode form.toFields key = some n :=
    nodeAtIf?_eq kept fun c member => back c (parts c member)
  -- Parts that may be missing and lists of declarators are found by lemmas of their own; the other
  -- fields stand one for each key.
  cases form with
  | branch test consequent alternate =>
    have other : nodeAtIf? readNode _ "alternate" = some alternate :=
      option (by simp [Form.toFields, filter_writeOption]) (by simp_all [Form.parts])
    simp_all [Form.ofFields?, Form.label, Form.parts, nodeAt?, required?, field?, Form.toFields, filter_writeOption]
  | forLoop start test next body =>
    have first : nodeAtIf? readNode _ "init" = some start :=
      option (by simp [Form.toFields, filter_writeOption]) (by simp_all [Form.parts])
    have second : nodeAtIf? readNode _ "test" = some test :=
      option (by simp [Form.toFields, filter_writeOption]) (by simp_all [Form.parts])
    have third : nodeAtIf? readNode _ "update" = some next :=
      option (by simp [Form.toFields, filter_writeOption]) (by simp_all [Form.parts])
    simp_all [Form.ofFields?, Form.label, Form.parts, nodeAt?, required?, field?, Form.toFields, filter_writeOption]
  | returnValue argument =>
    have given : nodeAtIf? readNode _ "argument" = some argument :=
      option (by simp [Form.toFields, filter_writeOption]) (by simp_all [Form.parts])
    simp [Form.ofFields?, Form.label, given]
  | declaration declarators =>
    have read : (writeDeclarators declarators).mapM (Declarator.ofJson? readNode) = some declarators :=
      mapM_writeDeclarators fun d among c part => back c (List.mem_flatMap.mpr ⟨d, among, part⟩)
    simp [Form.ofFields?, Form.label, Form.toFields, required?, field?, Json.items?, read]
  | literal value =>
    simp [Form.ofFields?, Form.label, Form.toFields, required?, field?, value.ofJson?_toJson number]
  | _ => simp_all [Form.ofFields?, Form.label, Form.toFields, Form.parts, nodeAt?, nodesAt?, required?, field?, Json.items?,
      mapM_writeNodes, operator?, Json.variant?, BinaryOp.ofSymbol?_symbol, LogicalOp.ofSymbol?_symbol,
      UnaryOp.ofSymbol?_symbol, AssignOp.ofSymbol?_symbol, UpdateOp.ofSymbol?_symbol, Json.text?, Json.bool?, pointers?,
      count32?_ofNat]

/-- The fields of a node are read as the node. -/
theorem Node.ofFields?_toFields {n : Node} (back : ∀ c ∈ n.form.parts, readNode c.toJson = some c)
    (number : ∀ x ∈ n.form.number?, (ofNumber x).number? = some x) : Node.ofFields? readNode n.toFields = some n := by
  have clear (key : String) (own : key = "type" ∨ key = "loc") : n.form.toFields.filter (·.1 == key) = [] := by
    refine List.filter_eq_nil_iff.mpr fun field member same => ?_
    have other := Form.key_ne member
    rw [eq_of_beq same] at other
    exact own.elim other.1 other.2
  have label : required? n.toFields "type" = some (.text n.form.label.name) :=
    required?_eq (by simp [Node.toFields, clear, filter_placeField])
  have loc : placeOf? n.toFields = some n.loc := placeOf?_eq (by
    simp only [Node.toFields, List.cons_append, List.filter_cons, List.filter_append, clear "loc" (.inr rfl)]
    cases n.loc <;> rfl)
  have form : Form.ofFields? readNode n.toFields n.form.label = some n.form := by
    rw [Node.toFields, Form.ofFields?_congr fun key typed placed => field?_framed _ _ typed placed]
    exact Form.ofFields?_toFields back number
  unfold Node.ofFields?
  simp only [label, Option.bind_eq_bind, Option.bind_some, Label.ofJson?_name, form, loc, Option.pure_def]
  cases n
  rfl

end

end MiniC
