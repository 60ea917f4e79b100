import Mathlib
import MiniC.Settings.Loading
import MiniC.Proofs.Trimming

/-!
# What the texts of variables spell

A strategy is named by its letters in either case, with blanks around them
(`Strategy.NamedBy`). Of the rules of lower case this needs that no other character becomes
one of these letters alone. A number is spelled by decimal digits, perhaps after a plus sign,
with blanks around them, and stays below `2 ^ 64` (`Settings.Spells`).
-/

namespace MiniC

/-! ## Lower case -/

namespace Text

/-- The small letters of the alphabet that are the lower-case form of nothing but themselves and their capital.
    The one that is missing is also that of the sign of the unit of temperature. -/
def letters : List Char := "abcdefghijlmnopqrstuvwxyz".toList

/-- A character is a letter in either case. -/
def IsLetter (c l : Char) : Prop := c = l ∨ c = l.toUpper

theorem lowerChar_of_isLetter {c l : Char} (known : l ∈ letters) (letter : IsLetter c l) : lowerChar c = [l] := by
  have all : (letters.all fun l => lowerChar l == [l] && lowerChar l.toUpper == [l]) = true := by decide +kernel
  have both := List.all_eq_true.1 all l known
  rw [Bool.and_eq_true, beq_iff_eq, beq_iff_eq] at both
  rcases letter with rfl | rfl
  · exact both.1
  · exact both.2

/-- Only two runs of capitals reach into the small letters of the alphabet. -/
theorem run_of_small {r : CaseRun} (member : r ∈ capitalRuns) (small : (r.first : Int) + r.offset ≤ 122) :
    r = ⟨0x41, 0x5A, 1, 32⟩ ∨ r = ⟨0x212A, 0x212A, 1, -8383⟩ := by
  have all : (capitalRuns.all fun r => decide (122 < (r.first : Int) + r.offset) ||
      (r.first == 0x41 && r.last == 0x5A && r.step == 1 && r.offset == 32) ||
      (r.first == 0x212A && r.last == 0x212A && r.step == 1 && r.offset == -8383)) = true := by decide
  have here := List.all_eq_true.1 all r member
  obtain ⟨first, last, step, offset⟩ := r
  simp only [Bool.or_eq_true, Bool.and_eq_true, beq_iff_eq, decide_eq_true_eq] at here
  grind

theorem toNat_of_mem_letters {l : Char} (known : l ∈ letters) : 97 ≤ l.toNat ∧ l.toNat ≤ 122 ∧ l.toNat ≠ 107 := by
  have all : (letters.all fun l => 97 ≤ l.toNat && l.toNat ≤ 122 && l.toNat != 107) = true := by decide
  simpa [and_assoc] using List.all_eq_true.1 all l known

/-- The character of a small letter is that of its code only. -/
theorem eq_of_ofNat_eq {n : Nat} {l : Char} (known : l ∈ letters) (same : Char.ofNat n = l) : n = l.toNat := by
  have small := toNat_of_mem_letters known
  rw [← same, Char.toNat_ofNat] at small ⊢
  split
  · rfl
  · rename_i invalid
    rw [if_neg invalid] at small
    omega

theorem toUpper_of_mem_letters {l : Char} (known : l ∈ letters) : l.toUpper.toNat = l.toNat - 32 := by
  have all : (letters.all fun l => l.toUpper.toNat == l.toNat - 32) = true := by decide
  simpa using List.all_eq_true.1 all l known

theorem isLetter_of_lowerChar {c l : Char} (known : l ∈ letters) (lower : lowerChar c = [l]) : IsLetter c l := by
  have small := toNat_of_mem_letters known
  unfold lowerChar at lower
  split at lower
  · cases lower
  · split at lower
    · rename_i r found
      have code := eq_of_ofNat_eq known (List.cons.inj lower).1
      have inside := List.find?_some found
      simp only [Bool.and_eq_true, decide_eq_true_eq] at inside
      obtain rfl | rfl := run_of_small (List.mem_of_find?_eq_some found) (by omega)
      · have upper := toUpper_of_mem_letters known
        refine .inr (Char.toNat_inj.1 ?_)
        dsimp only at code
        omega
      · -- The sign of the unit of temperature is that of another letter.
        dsimp only at code inside
        omega
    · exact .inl (List.cons.inj lower).1

/-- A word of small letters begins with the lower-case form of a character if that is a letter of it. -/
theorem lowerChar_append_iff {c l : Char} {word rest : List Char} (known : ∀ d ∈ l :: word, d ∈ letters) :
    lowerChar c ++ rest = l :: word ↔ IsLetter c l ∧ rest = word := by
  have knownHead := known l List.mem_cons_self
  constructor
  · intro same
    by_cases dotted : c.toNat = 0x130
    · -- The dot is a character of its own, which no letter is.
      rw [lowerChar, if_pos dotted] at same
      obtain ⟨-, rfl⟩ := List.cons.inj same
      exact absurd (known '\u0307' (by simp)) (by decide)
    · obtain ⟨d, one⟩ : ∃ d, lowerChar c = [d] := by
        rw [lowerChar, if_neg dotted]
        split <;> exact ⟨_, rfl⟩
      rw [one] at same
      obtain ⟨rfl, rfl⟩ := List.cons.inj same
      exact ⟨isLetter_of_lowerChar knownHead one, rfl⟩
  · rintro ⟨letter, rfl⟩
    rw [lowerChar_of_isLetter knownHead letter]
    rfl

theorem not_isLetter_sigma {l : Char} (known : l ∈ letters) : ¬ IsLetter 'Σ' l := by
  have small := toNat_of_mem_letters known
  have upper := toUpper_of_mem_letters known
  have sigma : ('Σ').toNat = 931 := by decide
  rintro (same | same)
  · rw [← same] at small
    omega
  · rw [← same] at upper
    omega

theorem lowerChar_ne_nil (c : Char) : lowerChar c ≠ [] := by
  unfold lowerChar
  split
  · simp
  · split <;> simp

/-- Of a capital sigma a small one is left, at the end of a word or not. -/
theorem lowerAfter_sigma (before rest : List Char) :
    ∃ small, small ∉ letters ∧ lowerAfter before ('Σ' :: rest) = small :: lowerAfter ('Σ' :: before) rest := by
  have step : lowerAfter before ('Σ' :: rest) =
      (if startsCased before && !startsCased rest then ['ς'] else ['σ']) ++ lowerAfter ('Σ' :: before) rest := by
    rw [lowerAfter, if_pos rfl]
  rw [step]
  split
  · exact ⟨'ς', by decide, rfl⟩
  · exact ⟨'σ', by decide, rfl⟩

/-- Small letters are the lower-case form of the same letters in either case, and of no other text. -/
theorem lower_eq_iff {word : List Char} (known : ∀ l ∈ word, l ∈ letters) (cs : List Char) :
    lower cs = word ↔ List.Forall₂ IsLetter cs word := by
  unfold lower
  generalize ([] : List Char) = before
  induction cs generalizing before word with
  | nil => cases word <;> simp [lowerAfter]
  | cons c rest ih =>
    by_cases sigma : c = 'Σ'
    · subst sigma
      obtain ⟨small, unknown, step⟩ := lowerAfter_sigma before rest
      rw [step]
      cases word with
      | nil => simp
      | cons l word =>
        have knownHead := known l List.mem_cons_self
        refine iff_of_false (fun same => unknown ?_) fun each => not_isLetter_sigma knownHead (List.forall₂_cons.1 each).1
        rwa [(List.cons.inj same).1]
    · have step : lowerAfter before (c :: rest) = lowerChar c ++ lowerAfter (c :: before) rest := by
        simp [lowerAfter, sigma]
      rw [step]
      cases word with
      | nil => simp [lowerChar_ne_nil]
      | cons l word =>
        rw [lowerChar_append_iff known, List.forall₂_cons, ih fun d member => known d (List.mem_cons_of_mem _ member)]

/-! ## Digits -/

/-- The number that decimal digits spell. -/
def decimal (digits : List Char) : Nat := Nat.ofDigits 10 (digits.reverse.map fun d => d.toNat - '0'.toNat)

theorem isDigit_iff {c : Char} : c.isDigit = true ↔ '0' ≤ c ∧ c ≤ '9' := by
  simp [Char.isDigit, Char.le_def]

theorem digit?_ten (c : Char) : digit? 10 c = if c.isDigit then some (c.toNat - '0'.toNat) else none := by
  unfold digit?
  by_cases digit : c.isDigit = true
  · have range := isDigit_iff.1 digit
    have most : c.toNat ≤ 57 := range.2
    have zero : '0'.toNat = 48 := rfl
    rw [if_pos range, if_pos digit, if_pos (by omega)]
  · rw [if_neg (mt isDigit_iff.2 digit), if_neg digit]
    refine if_neg ?_
    split
    · omega
    · split <;> omega

theorem decimal_cons (d : Char) (digits : List Char) :
    decimal (d :: digits) = (d.toNat - '0'.toNat) * 10 ^ digits.length + decimal digits := by
  simp [decimal, Nat.ofDigits_append, Nat.mul_comm, Nat.add_comm]

/-- Decimal digits are read as the number that they spell, after what has been read. -/
theorem digitsValue?_ten (read : Nat) (digits : List Char) :
    digitsValue? 10 read digits =
      if ∀ d ∈ digits, d.isDigit = true then some (read * 10 ^ digits.length + decimal digits) else none := by
  induction digits generalizing read with
  | nil => simp [digitsValue?, decimal]
  | cons d rest ih =>
    rw [digitsValue?, digit?_ten]
    by_cases digit : d.isDigit = true
    · simp only [digit, if_true, ih, List.forall_mem_cons, true_and, decimal_cons, List.length_cons]
      congr 2
      ring
    · simp [digit]

/-- Between the space and the first blank beyond it there is no blank. -/
theorem isBlank_eq_false {c : Char} (low : 0x21 ≤ c.toNat) (high : c.toNat ≤ 0x84) : isBlank c = false := by
  simp [isBlank, inRanges, blankRanges]
  omega

theorem isBlank_digit {c : Char} (digit : c.isDigit = true) : isBlank c = false := by
  have range := isDigit_iff.1 digit
  have least : 48 ≤ c.toNat := range.1
  have most : c.toNat ≤ 57 := range.2
  exact isBlank_eq_false (by omega) (by omega)

theorem isBlank_letter {c l : Char} (known : l ∈ letters) (letter : IsLetter c l) : isBlank c = false := by
  have small := toNat_of_mem_letters known
  have upper := toUpper_of_mem_letters known
  rcases letter with rfl | rfl
  · exact isBlank_eq_false (by omega) (by omega)
  · exact isBlank_eq_false (by omega) (by omega)

theorem isBlank_letters {core word : List Char} (known : ∀ l ∈ word, l ∈ letters) (each : List.Forall₂ IsLetter core word) :
    ∀ c ∈ core, isBlank c = false := by
  induction each with
  | nil => simp
  | cons letter _ ih =>
    rw [List.forall_mem_cons] at known ⊢
    exact ⟨isBlank_letter known.1 letter, ih known.2⟩

end Text

/-! ## What variables spell -/

/-- A text names a strategy: its letters in either case, with blanks around them. -/
def Strategy.NamedBy (raw : String) (st : Strategy) : Prop :=
  ∃ core, Text.Padded raw.toList core ∧ List.Forall₂ Text.IsLetter core st.name.toList

/-- A text spells a number: decimal digits, perhaps a plus sign before them, with blanks around them. The number
    is below `2 ^ 64`. -/
def Settings.Spells (raw : String) (n : Nat) : Prop :=
  ∃ core digits, Text.Padded raw.toList core ∧ (core = digits ∨ core = '+' :: digits) ∧ digits ≠ [] ∧
    (∀ d ∈ digits, d.isDigit = true) ∧ n = Text.decimal digits ∧ n < 2 ^ 64

theorem Strategy.ofName?_eq_some_iff {s : String} {st : Strategy} : ofName? s = some st ↔ s = st.name := by
  cases st <;> simp [ofName?, name] <;> grind

theorem Strategy.name_letters (st : Strategy) : ∀ l ∈ st.name.toList, l ∈ Text.letters := by
  have all : (st.name.toList.all fun l => Text.letters.contains l) = true := by cases st <;> decide
  simpa using all

/-- The text of a variable is read as the strategy that it names. -/
theorem Strategy.ofText_eq_ok_iff {raw : String} {st : Strategy} : ofText raw = .ok st ↔ NamedBy raw st := by
  have named : ofText raw = .ok st ↔ List.Forall₂ Text.IsLetter (Text.trim raw.toList) st.name.toList := by
    rw [← Text.lower_eq_iff st.name_letters, ← String.ofList_inj, String.ofList_toList, ← ofName?_eq_some_iff]
    unfold ofText
    dsimp only
    split <;> simp_all
  rw [named]
  constructor
  · exact fun each => ⟨_, (Text.trim_eq_iff (Text.isBlank_letters st.name_letters each) _).1 rfl, each⟩
  · rintro ⟨core, padded, each⟩
    rwa [(Text.trim_eq_iff (Text.isBlank_letters st.name_letters each) _).2 padded]

/-- The digits of a text without blanks around it. -/
def Settings.unsigned : List Char → List Char
  | '+' :: digits => digits
  | digits => digits

theorem Settings.eq_or_eq_unsigned (core : List Char) : core = unsigned core ∨ core = '+' :: unsigned core := by
  unfold unsigned
  split <;> simp

theorem Settings.unsigned_eq {core digits : List Char} (parts : core = digits ∨ core = '+' :: digits)
    (each : ∀ d ∈ digits, d.isDigit = true) : unsigned core = digits := by
  rcases parts with rfl | rfl
  · unfold unsigned
    split
    · exact absurd (each '+' (by simp)) (by decide)
    · rfl
  · rfl

theorem Settings.plain_of_digits {core : List Char} (each : ∀ d ∈ unsigned core, d.isDigit = true) :
    ∀ c ∈ core, Text.isBlank c = false := by
  intro c member
  rcases eq_or_eq_unsigned core with same | same
  · rw [same] at member
    exact Text.isBlank_digit (each c member)
  · rw [same] at member
    rcases List.mem_cons.1 member with rfl | member
    · decide
    · exact Text.isBlank_digit (each c member)

/-- What is read of digits is their value, if there are any and all are decimal, as far as it is below `2 ^ 64`. -/
theorem Settings.filter_digitsValue? (digits : List Char) :
    (if digits.isEmpty then none else Text.digitsValue? 10 0 digits).filter (· < pow2 64) =
      if digits ≠ [] ∧ (∀ d ∈ digits, d.isDigit = true) ∧ Text.decimal digits < 2 ^ 64 then some (Text.decimal digits)
      else none := by
  rw [Text.digitsValue?_ten, Nat.zero_mul, Nat.zero_add]
  by_cases spelled : digits ≠ [] ∧ (∀ d ∈ digits, d.isDigit = true) ∧ Text.decimal digits < 2 ^ 64
  · obtain ⟨some, each, small⟩ := spelled
    have notEmpty : ¬ digits.isEmpty = true := by simpa using some
    have below : decide (Text.decimal digits < pow2 64) = true := decide_eq_true small
    rw [if_neg notEmpty, if_pos each, Option.filter_some, if_pos below, if_pos ⟨some, each, small⟩]
  · rw [if_neg spelled, Option.filter_eq_none_iff]
    intro n found small
    split at found
    · cases found
    · rename_i some
      split at found
      · rename_i each
        cases found
        exact spelled ⟨by simpa using some, each, of_decide_eq_true small⟩
      · cases found

/-- A number is read of digits that spell one below `2 ^ 64`. -/
theorem Settings.numberOfText_eq (name raw : String) {digits : List Char} (trimmed : unsigned (Text.trim raw.toList) = digits) :
    numberOfText name raw =
      if digits ≠ [] ∧ (∀ d ∈ digits, d.isDigit = true) ∧ Text.decimal digits < 2 ^ 64 then .ok (Text.decimal digits)
      else .error (.invalid name s!"expected a non-negative integer, found \"{raw}\"") := by
  have value := filter_digitsValue? digits
  subst trimmed
  unfold numberOfText
  dsimp only
  split
  · rename_i n found
    have spelled := value.symm.trans found
    split at spelled <;> cases spelled
    rw [if_pos ‹_›]
  · rename_i found
    have unspelled := value.symm.trans found
    split at unspelled
    · cases unspelled
    · rw [if_neg ‹_›]

/-- The text of a variable is read as the number that it spells. -/
theorem Settings.numberOfText_eq_ok_iff {name raw : String} {n : Nat} : numberOfText name raw = .ok n ↔ Spells raw n := by
  rw [numberOfText_eq name raw rfl]
  constructor
  · intro read
    split at read
    · rename_i spelled
      obtain ⟨some, each, small⟩ := spelled
      cases read
      have padded := (Text.trim_eq_iff (plain_of_digits each) raw.toList).1 rfl
      exact ⟨_, _, padded, eq_or_eq_unsigned _, some, each, rfl, small⟩
    · cases read
  · rintro ⟨core, digits, padded, parts, some, each, rfl, small⟩
    have rest := unsigned_eq parts each
    have plain := @plain_of_digits core (by rwa [rest])
    rw [(Text.trim_eq_iff plain raw.toList).2 padded, rest, if_pos ⟨some, each, small⟩]

end MiniC
