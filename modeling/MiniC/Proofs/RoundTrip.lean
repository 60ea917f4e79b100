import MiniC.Proofs.Decoded
import MiniC.Proofs.JsonText

/-!
# Trees written and read

A program whose numbers are read back and which nests no deeper than a text may is written as a
text that spells it (`Program.ofText?_toText`). Whatever is read of a text fits one
(`Program.fits_of_ofJson?`), so it is written and read again (`Program.json_round_trip`).
-/

namespace MiniC
open Json

section
variable [Codec] [LawfulCodec]

/-- A node is read back if its numbers are and it nests no deeper than allowed. -/
theorem Node.ofJsonWithin?_toJson (fuel : Nat) : ∀ {n : Node}, (∀ x ∈ n.numbers, (ofNumber x).number? = some x) →
    n.toJson.nesting ≤ fuel → Node.ofJsonWithin? fuel n.toJson = some n := by
  induction fuel with
  | zero => exact fun {n} _ fits => absurd fits (Nat.not_le_of_lt n.nesting_pos)
  | succ fuel ih =>
    intro n back fits
    obtain ⟨number, parts⟩ := Node.forall_mem_numbers.mp back
    have inner := (Node.nesting_le.mp fits).1
    rw [n.toJson_eq]
    exact Node.ofFields?_toFields (fun c part => ih (parts c part) (Form.parts_nesting inner c part)) number

theorem Node.ofJson?_toJson {n : Node} {levels : Nat} (back : ∀ x ∈ n.numbers, (ofNumber x).number? = some x)
    (fits : n.toJson.nesting ≤ levels + 1) : Node.ofJson? levels n.toJson = some n := by
  obtain ⟨number, parts⟩ := Node.forall_mem_numbers.mp back
  have inner := (Node.nesting_le.mp fits).1
  have readable := n.readable_toJson back _ fits
  rw [n.toJson_eq, readable_object, Nat.add_sub_cancel] at readable
  have fields : n.toFields.all (fun field => field.1 == "loc" || field.2.readable levels) = true :=
    List.all_eq_true.mpr fun field member => by rw [readable.2 field member, Bool.or_true]
  rw [n.toJson_eq]
  unfold Node.ofJson?
  dsimp only
  rw [if_pos fields]
  exact Node.ofFields?_toFields
    (fun c part => Node.ofJsonWithin?_toJson levels (parts c part) (Form.parts_nesting inner c part)) number

/-- The fields of a program. -/
def Program.toFields (p : Program) : List (String × Json) := ("body", .list (writeNodes p.body)) :: placeField p.loc

/-- The fields of a program are read as the program. -/
theorem Program.ofJson?_toJson {p : Program}
    (nodes : ∀ n ∈ p.body, Node.ofJson? (Codec.maxNesting - 3) n.toJson = some n) : Program.ofJson? p.toJson = some p := by
  have kept : p.toFields.filter (·.1 == "body") = [("body", .list (writeNodes p.body))] := by
    simp [Program.toFields, filter_placeField]
  have body : nodesAt? (Node.ofJson? (Codec.maxNesting - 3)) p.toFields "body" = some p.body := by
    unfold nodesAt?
    rw [required?_eq kept]
    exact mapM_writeNodes nodes
  have loc : placeOf? p.toFields = some p.loc := placeOf?_eq (by unfold Program.toFields; cases p.loc <;> rfl)
  show Program.ofJson? (.object p.toFields) = some p
  simp only [Program.ofJson?, body, loc]
  rfl

/-- A program is read back if its numbers are and it nests no deeper than a text may. -/
theorem Program.ofText?_toText {p : Program} (back : ∀ x ∈ p.numbers, (ofNumber x).number? = some x)
    (fits : p.toJson.nesting ≤ Codec.maxNesting) : Program.ofText? p.toText = some p := by
  have numbers : ∀ n ∈ p.body, ∀ x ∈ n.numbers, (ofNumber x).number? = some x := List.forall_mem_flatMap.mp back
  simp only [Program.toJson, nesting_object_le, nesting_list_le, writeNodes_eq, List.forall_mem_cons, List.forall_mem_map] at fits
  obtain ⟨room, ⟨room', nodes⟩, place⟩ := fits
  have readable : p.toJson.readable Codec.maxNesting = true := by
    simp only [Program.toJson, readable_object, readable_list, writeNodes_eq, List.forall_mem_cons, List.forall_mem_map]
    exact ⟨room, ⟨room', fun n among => n.readable_toJson (numbers n among) _ (nodes n among)⟩, readable_placeField place⟩
  have levels : Codec.maxNesting - 1 - 1 = Codec.maxNesting - 3 + 1 := by rw [LawfulCodec.maxNesting_eq]
  rw [levels] at nodes
  unfold Program.ofText? Program.toText
  rw [LawfulCodec.parse?_pretty readable]
  exact Program.ofJson?_toJson fun n among => n.ofJson?_toJson (numbers n among) (nodes n among)

/-- What is written of a program with finite numbers that nests no deeper than a text may is read as the program, and
    so is what is written of a program that has been read of any text, by every lawful codec. All this is as far as its
    numbers are written as numerals that are read as the same numbers. -/
theorem Program.json_round_trip {p : Program}
    (codec : ∀ x ∈ p.numbers, x.isFinite = true → (ofNumber x).number? = some x) :
    ((∀ x ∈ p.numbers, x.isFinite = true) → p.toJson.nesting ≤ 127 → Program.ofText? p.toText = some p) ∧
      ∀ t, Program.ofText? t = some p → Program.ofText? p.toText = some p := by
  have forth (finite : ∀ x ∈ p.numbers, x.isFinite = true) (fits : p.toJson.nesting ≤ Codec.maxNesting) :
      Program.ofText? p.toText = some p :=
    Program.ofText?_toText (fun x member => codec x member (finite x member)) fits
  refine ⟨fun finite fits => forth finite (LawfulCodec.maxNesting_eq ▸ fits), fun t read => ?_⟩
  obtain ⟨j, -, built⟩ := Option.bind_eq_some_iff.mp read
  have fits : p.Fits := Program.fits_of_ofJson? built
  exact forth fits.finite fits.nesting

end

/-- A program that returns negative zero. -/
def Program.negativeZero : Program :=
  ⟨[⟨.returnValue (some ⟨.literal (.number (-0.0)), some ⟨1, 8⟩⟩), none⟩], none⟩

/-- The same as a list, with fields in another order, one that is not known, and options that are null. -/
def Program.negativeZeroList : String :=
  "[[\x7b\"argument\": \x7b\"value\": -0.0, \"loc\": [1, 8], \"type\": \"Literal\"\x7d, \"loc\": null, \"text\": [0], \"type\": \"ReturnStatement\"\x7d], null]"

theorem Program.json_round_trip_negativeZero :
    Program.ofText? negativeZero.toText = some negativeZero ∧
      ∃ p, Program.ofText? negativeZeroList = some p ∧ p.numbers = [-0.0] ∧ Program.ofText? p.toText = some p := by
  have codec {p : Program} (only : p.numbers = [-0.0]) (x : Float) (member : x ∈ p.numbers) (_ : x.isFinite = true) :
      (ofNumber x).number? = some x := by
    rw [only, List.mem_singleton] at member
    rw [member]
    decide +kernel
  have only : negativeZero.numbers = [-0.0] := by decide +kernel
  have finite : ∀ x ∈ negativeZero.numbers, x.isFinite = true := by decide +kernel
  refine ⟨(Program.json_round_trip (codec only)).1 finite (by decide +kernel), ?_⟩
  have checked : (Program.ofText? negativeZeroList).any (fun p => decide (p.numbers = [-0.0])) = true := by decide +kernel
  obtain ⟨p, read, same⟩ := (Option.any_eq_true _ _).mp checked
  have only : p.numbers = [-0.0] := of_decide_eq_true same
  exact ⟨p, read, only, (Program.json_round_trip (codec only)).2 negativeZeroList read⟩

end MiniC
