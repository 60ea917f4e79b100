import Mathlib
import MiniC.Proofs.Fitting

/-!
# What a cast takes and what it yields

The exact value of a finite number is a rational (`Number.value?`). On it, whole numbers are
the integers (`Number.isWhole_iff`), and truncation goes to the next integer on the side of
zero (`Number.value?_truncate`). A cast takes what its kind takes, leaves integers and arrays
as they are, and has nothing more to do on what it has yielded (`Value.casts_settle`).
-/

namespace MiniC

/-! ## Exact values -/

namespace Number

/-- The exact value of a magnitude. -/
def Magnitude.value (v : Magnitude) : ℚ := v.significand * 2 ^ v.exponent

/-- The exact value of a number, unless it is an infinity or no number. -/
def value? (x : Float) : Option ℚ :=
  match read x with
  | .finite negative v => some (if negative then -v.value else v.value)
  | _ => none

namespace Magnitude

theorem denominator_pos (v : Magnitude) : 0 < v.denominator := Nat.two_pow_pos _

theorem value_eq (v : Magnitude) : v.value = v.numerator / v.denominator := by
  obtain ⟨m, e⟩ := v
  obtain ⟨n, rfl | rfl⟩ := Int.eq_nat_or_neg e
  · simp [value, numerator, denominator, pow2]
  · simp [value, numerator, denominator, pow2, div_eq_mul_inv]

theorem value_nonneg (v : Magnitude) : 0 ≤ v.value := by
  rw [value_eq]
  positivity

theorem floor_eq (v : Magnitude) : v.floor = ⌊v.value⌋₊ := by
  rw [value_eq, Nat.floor_div_eq_div]
  rfl

theorem isWhole_iff (v : Magnitude) : v.isWhole = true ↔ v.value = v.floor := by
  have pos : (v.denominator : ℚ) ≠ 0 := Nat.cast_ne_zero.2 v.denominator_pos.ne'
  rw [isWhole, beq_iff_eq, value_eq, floor, div_eq_iff pos, ← Nat.cast_mul, Nat.cast_inj]
  have := Nat.div_add_mod' v.numerator v.denominator
  omega

end Magnitude

/-- A number is found to be whole if its exact value is that of an integer. -/
theorem isWhole_iff {x : Float} : isWhole x = true ↔ ∃ n : ℤ, value? x = some (n : ℚ) := by
  unfold isWhole value?
  cases read x with
  | finite negative v =>
    dsimp only
    rw [v.isWhole_iff]
    constructor
    · intro whole
      cases negative with
      | false => exact ⟨v.floor, by simp [whole]⟩
      | true => exact ⟨-v.floor, by simp [whole]⟩
    · rintro ⟨n, value⟩
      have size : v.value = n.natAbs := by
        rw [Nat.cast_natAbs, Int.cast_abs, ← Option.some.inj value]
        cases negative <;> simp [abs_of_nonneg v.value_nonneg]
      rw [v.floor_eq, size, Nat.floor_natCast]
  | _ => simp

/-- The bits that count fractions are cleared in the fraction as in the bits. -/
theorem fractionField_sub_mod {bits k : Nat} (small : k ≤ 52) :
    pow2 52 + fractionField (bits - bits % pow2 k) = pow2 k * ((pow2 52 + fractionField bits) / pow2 k) := by
  obtain ⟨c, split⟩ : ∃ c, pow2 52 = pow2 k * c := ⟨2 ^ (52 - k), by
    show 2 ^ 52 = 2 ^ k * 2 ^ (52 - k)
    rw [← Nat.pow_add]
    congr 1
    omega⟩
  have pos : 0 < pow2 k := Nat.two_pow_pos k
  unfold fractionField
  rw [split, sub_mod_eq, Nat.mul_mod_mul_left, Nat.mul_add_div pos, Nat.mod_mul_right_div_self, Nat.mul_add]

theorem signField_sub_mod {bits k : Nat} (small : k ≤ 63) : signField (bits - bits % pow2 k) = signField bits := by
  have split : (2 : Nat) ^ 63 = 2 ^ k * 2 ^ (63 - k) := by rw [← Nat.pow_add]; congr 1; omega
  unfold signField
  congr 2
  show (bits - bits % 2 ^ k) / 2 ^ 63 = bits / 2 ^ 63
  rw [sub_mod_eq, split, Nat.mul_div_mul_left _ _ (Nat.two_pow_pos k), Nat.div_div_eq_div_mul]

/-- What bits of a finite number stand for. -/
theorem readBits_eq_finite {bits : Nat} {negative : Bool} {v : Magnitude} (finite : readBits bits = .finite negative v) :
    scaleField bits ≠ 2047 ∧ negative = signField bits ∧
      (scaleField bits = 0 ∧ v = ⟨fractionField bits, -1074⟩ ∨
        scaleField bits ≠ 0 ∧ v = ⟨pow2 52 + fractionField bits, scaleField bits - 1075⟩) := by
  unfold readBits at finite
  dsimp only at finite
  split at finite
  · split at finite <;> cases finite
  · rename_i notGreatest
    split at finite
    · rename_i zero
      cases finite
      exact ⟨notGreatest, rfl, .inl ⟨zero, rfl⟩⟩
    · rename_i some
      cases finite
      exact ⟨notGreatest, rfl, .inr ⟨some, rfl⟩⟩

theorem fractionField_lt (bits : Nat) : fractionField bits < pow2 52 := Nat.mod_lt _ (Nat.two_pow_pos 52)

/-- The whole part of a magnitude with an exponent that is not positive. -/
theorem Magnitude.floor_neg (m k : Nat) : (Magnitude.mk m (-k)).floor = m / pow2 k := by
  simp [floor, numerator, denominator, pow2]

/-- Below one there is no whole part. -/
theorem Magnitude.floor_of_small {m : Nat} {e : Int} (significand : m < pow2 53) (exponent : e ≤ -53) :
    (Magnitude.mk m e).floor = 0 := by
  obtain ⟨k, rfl⟩ : ∃ k : Nat, e = -k := ⟨(-e).toNat, by omega⟩
  have far : pow2 53 ≤ pow2 k := Nat.pow_le_pow_right Nat.two_pos (by omega)
  rw [floor_neg]
  exact Nat.div_eq_of_lt (Nat.lt_of_lt_of_le significand far)

/-- From an exponent of zero on everything is whole. -/
theorem Magnitude.isWhole_of_nonneg {m : Nat} {e : Int} (exponent : 0 ≤ e) : (Magnitude.mk m e).isWhole = true := by
  obtain ⟨k, rfl⟩ := Int.eq_ofNat_of_zero_le exponent
  simp [isWhole, denominator, pow2, Nat.mod_one]

/-- A finite number is truncated to the whole part of its magnitude, under its own sign. -/
theorem readBits_truncateBits {bits : Nat} {negative : Bool} {v : Magnitude} (finite : readBits bits = .finite negative v) :
    ∃ v', readBits (truncateBits bits) = .finite negative v' ∧ v'.value = v.floor := by
  obtain ⟨notGreatest, rfl, magnitude⟩ := readBits_eq_finite finite
  have fraction := fractionField_lt bits
  by_cases large : 1075 ≤ scaleField bits
  · -- No bit counts fractions.
    have same : truncateBits bits = bits := by simp [truncateBits, large]
    obtain ⟨zero, -⟩ | ⟨-, rfl⟩ := magnitude
    · omega
    · exact ⟨_, by rw [same, finite], (Magnitude.isWhole_iff _).1 (Magnitude.isWhole_of_nonneg (by omega))⟩
  by_cases below : scaleField bits < 1023
  · -- Only the sign is left.
    have sign : truncateBits bits = bits - bits % pow2 63 := by simp [truncateBits, large, below]
    have nothing : v.floor = 0 := by
      obtain ⟨-, rfl⟩ | ⟨-, rfl⟩ := magnitude
      · exact Magnitude.floor_of_small (Nat.lt_trans fraction (by decide)) (by omega)
      · exact Magnitude.floor_of_small (show pow2 52 + fractionField bits < 2 * pow2 52 by omega) (by omega)
    have cleared : fractionField (bits - bits % pow2 63) = 0 := by
      rw [sub_mod_eq]
      exact Nat.mod_eq_zero_of_dvd (Dvd.dvd.mul_right (Nat.pow_dvd_pow 2 (by decide)) _)
    refine ⟨⟨0, -1074⟩, ?_, by rw [nothing]; simp [Magnitude.value]⟩
    unfold readBits
    dsimp only
    rw [sign, scaleField_sign, signField_sub_mod (Nat.le_refl 63), cleared]
    rfl
  · obtain ⟨zero, -⟩ | ⟨some, rfl⟩ := magnitude
    · omega
    -- The bits that count fractions are the last of the fraction.
    obtain ⟨k, few, scale⟩ : ∃ k ≤ 52, scaleField bits + k = 1075 := ⟨1075 - scaleField bits, by omega, by omega⟩
    have cleared : truncateBits bits = bits - bits % pow2 k := by
      rw [truncateBits, if_neg large, if_neg below, ← scale, Nat.add_sub_cancel_left]
    refine ⟨⟨pow2 52 + fractionField (truncateBits bits), scaleField bits - 1075⟩, ?_, ?_⟩
    · simp only [readBits, cleared, scaleField_sub_mod few, signField_sub_mod (Nat.le_trans few (by decide)), notGreatest,
        some, if_false]
    · have down : (scaleField bits : Int) - 1075 = -(k : Int) := by omega
      have pos : (pow2 k : ℚ) ≠ 0 := Nat.cast_ne_zero.2 (Nat.two_pow_pos k).ne'
      rw [cleared, fractionField_sub_mod few, down, Magnitude.floor_neg, Magnitude.value_eq]
      simp [Magnitude.numerator, Magnitude.denominator]

/-- A finite number is truncated to the integer next to it on the side of zero. -/
theorem value?_truncate {x : Float} {q : ℚ} (value : value? x = some q) :
    value? (truncate x) = some ((if 0 ≤ q then ⌊q⌋ else ⌈q⌉ : ℤ) : ℚ) := by
  unfold value? read at *
  rw [toBits_truncate]
  cases reading : readBits x.toBits.toNat with
  | finite negative v =>
    obtain ⟨v', truncated, whole⟩ := readBits_truncateBits reading
    rw [reading] at value
    rw [truncated]
    cases value
    have floor : (v.floor : ℤ) = ⌊v.value⌋ := by
      rw [v.floor_eq]
      exact Int.natCast_floor_eq_floor v.value_nonneg
    have cast : (v.floor : ℚ) = (⌊v.value⌋ : ℚ) := by exact_mod_cast congrArg (Int.cast : ℤ → ℚ) floor
    cases negative with
    | false => simp [whole, cast, v.value_nonneg]
    | true =>
      by_cases zero : v.value = 0
      · simp [whole, cast, zero]
      · have negative : ¬ v.value ≤ 0 := not_le.2 (lt_of_le_of_ne v.value_nonneg (Ne.symm zero))
        simp [whole, cast, negative, Int.ceil_neg]
  | _ => simp [reading] at value

/-- Infinities and what is no number are not truncated. -/
theorem truncate_of_value?_eq_none {x : Float} (value : value? x = none) : truncate x = x := by
  have greatest : scaleField x.toBits.toNat = 2047 := by
    by_contra notGreatest
    unfold value? read readBits at value
    dsimp only at value
    rw [if_neg notGreatest] at value
    split at value
    · cases value
    · rename_i none
      split at none <;> exact none _ _ rfl
  unfold truncate truncateBits
  dsimp only
  rw [if_pos (by omega), UInt64.ofNat_toNat, Float.ofBits_toBits]

end Number

/-! ## Casts -/

/-- A finite number without a fraction. -/
def Value.IsInteger (v : Value) : Prop := ∃ x, v = .number x ∧ ∃ n : ℤ, Number.value? x = some (n : ℚ)

/-- What a kind takes: a pointer takes integers and arrays, any other kind takes numbers and
    truth values, and void also the value that is none. -/
def Kind.Takes (k : Kind) (v : Value) : Prop :=
  if 0 < k.pointers then v.IsInteger ∨ ∃ r, v = .array r
  else (∃ x, v = .number x) ∨ (∃ b, v = .bool b) ∨ k.primitive = .void ∧ v = .void

namespace Value

theorem isInteger_number {x : Float} : (Value.number x).IsInteger ↔ Number.isWhole x = true := by
  rw [Number.isWhole_iff]
  constructor
  · rintro ⟨y, same, whole⟩
    cases same
    exact whole
  · exact fun whole => ⟨x, rfl, whole⟩

/-- A cast succeeds on what its kind takes, wherever it stands. -/
theorem cast_ok_iff (v : Value) (k : Kind) (span : Option Span) : (∃ w, v.cast k span = .ok w) ↔ k.Takes v := by
  unfold Kind.Takes
  by_cases pointer : 0 < k.pointers
  · have isPointer : k.isPointer = true := decide_eq_true pointer
    rw [if_pos pointer]
    cases v with
    | number x => by_cases whole : Number.isWhole x = true <;> simp [cast, isPointer, isInteger_number, whole]
    | array r => simp [cast, isPointer]
    | _ => simp [cast, isPointer, IsInteger]
  · have notPointer : k.isPointer = false := decide_eq_false pointer
    rw [if_neg pointer]
    cases v with
    | void => by_cases void : k.primitive = .void <;> simp [cast, notPointer, void]
    | number x => by_cases kept : (k.primitive.isFloating || Number.isWhole x) = true <;> simp [cast, notPointer, kept]
    | bool b => by_cases kept : k.primitive.isFloating = true ∨ k.primitive = .bool <;> simp [cast, notPointer, kept]
    | _ => simp [cast, notPointer]

/-- A cast that succeeds keeps integers. -/
theorem eq_of_cast_integer {v w : Value} {k : Kind} {span : Option Span} (integer : v.IsInteger)
    (fitted : v.cast k span = .ok w) : w = v := by
  obtain ⟨x, rfl, value⟩ := integer
  have whole := Number.isWhole_iff.2 value
  simpa [cast, whole] using fitted.symm

/-- A cast that succeeds keeps arrays. -/
theorem eq_of_cast_array {r : ArrayRef} {w : Value} {k : Kind} {span : Option Span}
    (fitted : (Value.array r).cast k span = .ok w) : w = .array r := by
  unfold cast at fitted
  dsimp only at fitted
  split at fitted <;> cases fitted
  rfl

/-- A cast that succeeds keeps infinities and what is no number. -/
theorem eq_of_cast_not_finite {x : Float} {w : Value} {k : Kind} {span : Option Span} (value : Number.value? x = none)
    (fitted : (Value.number x).cast k span = .ok w) : w = .number x := by
  have kept : (Value.number x).cast k span = .ok (.number x) ∨ ∀ w, (Value.number x).cast k span ≠ .ok w := by
    unfold cast
    dsimp only
    rw [Number.truncate_of_value?_eq_none value]
    split <;> split <;> simp
  obtain kept | refused := kept
  · exact Except.ok.inj (fitted.symm.trans kept)
  · exact absurd fitted (refused w)

/-- Under a kind without fractions every finite number becomes an integer, the next one on the side of zero. -/
theorem cast_number_integral {x : Float} {q : ℚ} {w : Value} {k : Kind} {span : Option Span} (value : Number.value? x = some q)
    (integral : k.primitive.isFloating = false) (fitted : (Value.number x).cast k span = .ok w) :
    ∃ y, w = .number y ∧ Number.value? y = some ((if 0 ≤ q then ⌊q⌋ else ⌈q⌉ : ℤ) : ℚ) := by
  by_cases whole : Number.isWhole x = true
  · obtain ⟨n, same⟩ := Number.isWhole_iff.1 whole
    refine ⟨x, eq_of_cast_integer (isInteger_number.2 whole) fitted, ?_⟩
    rw [value] at same
    cases same
    simp [value]
  · simp only [cast, whole, integral, Bool.or_self, Bool.false_eq_true, if_false] at fitted
    split at fitted
    · cases fitted
    · cases fitted
      exact ⟨_, rfl, Number.value?_truncate value⟩

/-- A cast succeeds exactly on what its kind takes. It keeps integers and arrays, infinities and what is
    no number; what it yields is changed by no further cast to the kind, and under a kind without fractions it makes of every
    finite number the next integer on the side of zero. -/
theorem casts_settle (v : Value) (k : Kind) (span : Option Span) :
    ((∃ w, v.cast k span = .ok w) ↔ k.Takes v) ∧
    ∀ w, v.cast k span = .ok w →
      ((v.IsInteger ∨ ∃ r, v = .array r) → w = v) ∧
      (∀ x, v = .number x → Number.value? x = none → w = v) ∧
      (∀ span', w.cast k span' = .ok w) ∧
      (k.primitive.isFloating = false → ∀ x q, v = .number x → Number.value? x = some q →
        ∃ y, w = .number y ∧ Number.value? y = some ((if 0 ≤ q then ⌊q⌋ else ⌈q⌉ : ℤ) : ℚ)) := by
  refine ⟨v.cast_ok_iff k span, fun w fitted => ⟨?_, ?_, fits_of_cast fitted, ?_⟩⟩
  · rintro (integer | ⟨r, rfl⟩)
    · exact eq_of_cast_integer integer fitted
    · exact eq_of_cast_array fitted
  · rintro x rfl value
    exact eq_of_cast_not_finite value fitted
  · rintro integral x q rfl value
    exact cast_number_integral value integral fitted

/-- Three and a half below zero is cast to an integer kind, and then cast again. -/
theorem casts_settle_fraction :
    (Value.number (-3.5)).cast (.plain .int) none = .ok (.number (-3.0)) ∧
      ∀ span, (Value.number (-3.0)).cast (.plain .int) span = .ok (.number (-3.0)) := by
  have fraction : Number.isWhole (-3.5) = false := by decide +kernel
  have down : Number.truncate (-3.5) = -3.0 := by decide +kernel
  have fitted : (Value.number (-3.5)).cast (.plain .int) none = .ok (.number (-3.0)) := by
    simp [cast, Kind.plain, Kind.isPointer, Primitive.isFloating, fraction, down]
  exact ⟨fitted, ((casts_settle (.number (-3.5)) (.plain .int) none).2 _ fitted).2.2.1⟩

end Value
end MiniC
