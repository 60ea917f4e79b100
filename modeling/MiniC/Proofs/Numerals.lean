import Mathlib.Data.List.TakeDrop
import MiniC.Json.Reader
import MiniC.Proofs.Finite

/-!
# Numerals

A numeral takes nothing of a text but characters of which numerals are made, and at least one
(`Numeral.takes_of_scan?`), so it ends where another character stands. The numerals of counts
are read as these counts (`Numeral.ofLexeme?_toString`), and every number that a numeral is read
as is finite (`Numeral.isFinite_of_ofLexeme?`).
-/

namespace MiniC.Json

/-! ## What numerals are made of -/

/-- The second text is what is left of the first one after characters of which numerals are
    made. -/
def Takes (cs rest : List Char) : Prop := ∃ used, cs = used ++ rest ∧ ∀ c ∈ used, isNumeralPart c = true

namespace Takes
variable {cs rest last : List Char}

theorem refl (cs : List Char) : Takes cs cs := ⟨[], rfl, List.forall_mem_nil _⟩

theorem cons {c : Char} (part : isNumeralPart c = true) (h : Takes cs rest) : Takes (c :: cs) rest := by
  obtain ⟨used, rfl, parts⟩ := h
  exact ⟨c :: used, rfl, List.forall_mem_cons.mpr ⟨part, parts⟩⟩

theorem trans (h : Takes cs rest) (h' : Takes rest last) : Takes cs last := by
  obtain ⟨used, rfl, parts⟩ := h
  obtain ⟨used', rfl, parts'⟩ := h'
  exact ⟨used ++ used', (List.append_assoc ..).symm, List.forall_mem_append.mpr ⟨parts, parts'⟩⟩

theorem length_le (h : Takes cs rest) : rest.length ≤ cs.length := by
  obtain ⟨used, rfl, -⟩ := h
  simp

end Takes

theorem isNumeralPart_of_isDigit {c : Char} (digit : c.isDigit = true) : isNumeralPart c = true := by
  simp [isNumeralPart, digit]

theorem takes_of_someDigits? {cs ds rest : List Char} (found : someDigits? cs = some (ds, rest)) :
    Takes cs rest ∧ rest.length < cs.length := by
  unfold someDigits? at found
  rw [List.span_eq_takeWhile_dropWhile] at found
  split at found
  · cases found
  · rename_i split
    obtain ⟨rfl, rfl⟩ := Prod.mk.inj (Option.some.inj found)
    have whole : cs.takeWhile Char.isDigit ++ cs.dropWhile Char.isDigit = cs := List.takeWhile_append_dropWhile
    have some : cs.takeWhile Char.isDigit ≠ [] := fun none => split _ (by rw [none])
    refine ⟨⟨_, whole.symm, fun c member => ?_⟩, ?_⟩
    · exact isNumeralPart_of_isDigit (List.mem_takeWhile_imp member)
    · have := congrArg List.length whole
      have := List.length_pos_iff.mpr some
      rw [List.length_append] at *
      omega

theorem takes_of_wholeDigits? {cs ds rest : List Char} (found : wholeDigits? cs = some (ds, rest)) :
    Takes cs rest ∧ rest.length < cs.length := by
  unfold wholeDigits? at found
  split at found
  · cases found
    exact ⟨(Takes.refl _).cons rfl, Nat.lt_succ_self _⟩
  · exact takes_of_someDigits? found

theorem takes_of_fraction? {cs rest : List Char} {ds : Option (List Char)} (found : fraction? cs = some (ds, rest)) :
    Takes cs rest := by
  unfold fraction? at found
  split at found
  · obtain ⟨⟨ds, rest⟩, digits, same⟩ := Option.map_eq_some_iff.mp found
    cases same
    exact (takes_of_someDigits? digits).1.cons rfl
  · cases found
    exact .refl _

theorem takes_of_exponent? {cs rest : List Char} {n : Option Int} (found : exponent? cs = some (n, rest)) :
    Takes cs rest := by
  unfold exponent? at found
  split at found
  · rename_i c cs
    split at found
    · rename_i mark
      have part : isNumeralPart c = true := by rcases mark with rfl | rfl <;> rfl
      refine .cons part ?_
      split at found <;> obtain ⟨⟨ds, rest⟩, digits, same⟩ := Option.map_eq_some_iff.mp found <;> cases same
      · exact (takes_of_someDigits? digits).1.cons rfl
      · exact (takes_of_someDigits? digits).1.cons rfl
      · exact (takes_of_someDigits? digits).1
    · cases found
      exact .refl _
  · cases found
    exact .refl _

theorem takes_of_parts {cs cs₁ cs₂ rest whole : List Char} {places : Option (List Char)} {power : Option Int}
    (digits : wholeDigits? cs = some (whole, cs₁)) (fraction : fraction? cs₁ = some (places, cs₂))
    (exponent : exponent? cs₂ = some (power, rest)) : Takes cs rest ∧ rest.length < cs.length := by
  obtain ⟨first, some⟩ := takes_of_wholeDigits? digits
  have second := takes_of_fraction? fraction
  have third := takes_of_exponent? exponent
  refine ⟨(first.trans second).trans third, ?_⟩
  have := second.length_le
  have := third.length_le
  omega

/-- A numeral takes only what numerals are made of, and at least one character. -/
theorem Numeral.takes_of_scan? {cs rest : List Char} {n : Numeral} (found : Numeral.scan? cs = some (n, rest)) :
    Takes cs rest ∧ rest.length < cs.length := by
  unfold Numeral.scan? at found
  split at found
  simp only [Option.bind_eq_bind, Option.bind_eq_some_iff, Option.pure_def, Option.some.injEq] at found
  obtain ⟨⟨whole, cs₁⟩, digits, ⟨places, cs₂⟩, fraction, ⟨power, cs₃⟩, exponent, same⟩ := found
  cases same
  obtain ⟨takes, some⟩ := takes_of_parts digits fraction exponent
  rename_i signed
  split at signed <;> cases signed
  · exact ⟨takes.cons rfl, Nat.lt_succ_of_lt some⟩
  · exact ⟨takes, some⟩

/-- A whole text that spells a numeral is not empty, and numerals are made of its characters. -/
theorem Numeral.scan?_of_ofLexeme? {lexeme : String} {n : Numeral} (found : Numeral.ofLexeme? lexeme = some n) :
    Numeral.scan? lexeme.toList = some (n, []) ∧ lexeme.toList ≠ [] ∧ ∀ c ∈ lexeme.toList, isNumeralPart c = true := by
  unfold Numeral.ofLexeme? at found
  split at found
  · rename_i n' spelled
    cases found
    obtain ⟨⟨used, whole, parts⟩, some⟩ := takes_of_scan? spelled
    rw [List.append_nil] at whole
    rw [← whole] at parts
    exact ⟨spelled, List.length_pos_iff.mp some, parts⟩
  · cases found

/-! ## Numbers -/

theorem appendDigits_le {word : Nat} (fits : word ≤ Number.maxCount) (ds : List Char) :
    (appendDigits word ds).1 ≤ Number.maxCount := by
  induction ds generalizing word with
  | nil => exact fits
  | cons d rest ih =>
    unfold appendDigits
    dsimp only
    split
    · exact fits
    · rename_i longer
      exact ih (Nat.le_of_not_lt longer)

theorem Numeral.digits_le {cs rest : List Char} {n : Numeral} (found : Numeral.scan? cs = some (n, rest)) :
    n.decimal.digits ≤ Number.maxCount := by
  unfold Numeral.scan? at found
  simp only [Option.bind_eq_bind, Option.bind_eq_some_iff, Option.pure_def, Option.some.injEq] at found
  obtain ⟨_, -, _, -, _, -, same⟩ := found
  cases same
  exact appendDigits_le (appendDigits_le (Nat.zero_le _) _) _

/-- Every number that a numeral is read as is finite. -/
theorem Numeral.isFinite_of_ofLexeme? {lexeme : String} {x : Float}
    (found : (Numeral.ofLexeme? lexeme >>= Numeral.number?) = some x) : x.isFinite = true := by
  obtain ⟨n, spelled, found⟩ := Option.bind_eq_some_iff.mp found
  have digits := Numeral.digits_le (Numeral.scan?_of_ofLexeme? spelled).1
  exact Number.isFinite_of_ofScaled? (Nat.lt_of_le_of_lt digits (by decide)) found

/-! ## Counts -/

theorem le_ofDigitChars (ds : List Char) (word : Nat) : word ≤ Nat.ofDigitChars 10 ds word := by
  induction ds generalizing word with
  | nil => exact Nat.le_of_eq Nat.ofDigitChars_nil.symm
  | cons d rest ih =>
    rw [Nat.ofDigitChars_cons]
    exact Nat.le_trans (by omega) (ih _)

theorem appendDigits_eq {word : Nat} {ds : List Char} (fits : Nat.ofDigitChars 10 ds word ≤ Number.maxCount) :
    appendDigits word ds = (Nat.ofDigitChars 10 ds word, 0) := by
  induction ds generalizing word with
  | nil => rw [Nat.ofDigitChars_nil]; rfl
  | cons d rest ih =>
    rw [Nat.ofDigitChars_cons] at fits ⊢
    unfold appendDigits
    dsimp only
    rw [if_neg (Nat.not_lt.mpr (Nat.le_trans (le_ofDigitChars rest _) fits)), ih fits]

theorem digit_of_mem_toDigits {n : Nat} {c : Char} (member : c ∈ Nat.toDigits 10 n) : c.isDigit = true :=
  Nat.isDigit_of_mem_toDigits (by decide) (by decide) member

/-- Only the digits of zero begin with a zero. -/
theorem head_toDigits {n : Nat} {rest : List Char} (digits : Nat.toDigits 10 n = '0' :: rest) : n = 0 := by
  induction n using Nat.strongRecOn generalizing rest with
  | ind n ih =>
    by_cases single : n < 10
    · rw [Nat.toDigits_of_lt_base single] at digits
      have zero : ∀ d < 10, Nat.digitChar d = '0' → d = 0 := by decide
      exact zero n single (List.cons.inj digits).1
    · rw [Nat.toDigits_of_base_le (by decide) (by omega)] at digits
      obtain ⟨first, others, split⟩ := List.exists_cons_of_ne_nil (Nat.toDigits_ne_nil (b := 10) (n := n / 10))
      rw [split] at digits
      rw [(List.cons.inj digits).1] at split
      have := ih (n / 10) (by omega) split
      omega

theorem wholeDigits?_toDigits (n : Nat) : wholeDigits? (Nat.toDigits 10 n) = some (Nat.toDigits 10 n, []) := by
  unfold wholeDigits?
  split
  · rename_i rest digits
    have zero := head_toDigits digits
    subst zero
    cases digits
    rfl
  · have whole : (Nat.toDigits 10 n).span Char.isDigit = (Nat.toDigits 10 n, []) := by
      rw [List.span_eq_takeWhile_dropWhile, List.takeWhile_eq_self_iff.mpr fun c => digit_of_mem_toDigits,
        List.dropWhile_eq_nil_iff.mpr fun c => digit_of_mem_toDigits]
    unfold someDigits?
    rw [whole]
    split
    · rename_i none
      exact absurd (Prod.mk.inj none).1 Nat.toDigits_ne_nil
    · rfl

/-- The numeral of a count. -/
theorem Numeral.ofLexeme?_toString {n : Nat} (fits : n ≤ Number.maxCount) :
    Numeral.ofLexeme? (toString n) = some ⟨false, ⟨n, 0⟩, true⟩ := by
  have digits : (toString n).toList = Nat.toDigits 10 n := Nat.toList_repr
  have word : appendDigits 0 (Nat.toDigits 10 n) = (n, 0) := by
    have read : Nat.ofDigitChars 10 (Nat.toDigits 10 n) 0 = n := Nat.ofDigitChars_ten_toDigits
    rw [appendDigits_eq (by rwa [read]), read]
  have spelled : Numeral.scan? (Nat.toDigits 10 n) = some (⟨false, ⟨n, 0⟩, true⟩, []) := by
    unfold Numeral.scan?
    split
    rename_i signed
    split at signed <;> cases signed
    · rename_i rest minus
      have : ('-').isDigit = true := digit_of_mem_toDigits (n := n) (by rw [minus]; exact List.mem_cons_self)
      cases this
    simp only [Option.bind_eq_bind, wholeDigits?_toDigits, Option.bind_some]
    show some (({ negative := false, decimal := leadingDecimal (Nat.toDigits 10 n) [] 0, integral := true } : Numeral), []) = _
    unfold leadingDecimal
    rw [word]
    rfl
  unfold Numeral.ofLexeme?
  rw [digits, spelled]

theorem Numeral.isSome_number?_toString {n : Nat} (fits : n ≤ Number.maxCount) :
    (Numeral.ofLexeme? (toString n) >>= Numeral.number?).isSome = true := by
  rw [Numeral.ofLexeme?_toString fits]
  exact Number.isSome_ofScaled? (Nat.lt_of_le_of_lt fits (by decide))

theorem Numeral.nat?_toString {n : Nat} (fits : n ≤ Number.maxCount) :
    (Numeral.ofLexeme? (toString n) >>= Numeral.nat?) = some n := by
  rw [Numeral.ofLexeme?_toString fits]
  rfl

end MiniC.Json
