import Mathlib
import MiniC.Proofs.Lexical
import MiniC.Eval.Declaration

/-!
# Values that fit a kind

A cast makes a value fit its kind, so that the same cast changes it no more. For numbers
this is because truncation does nothing a second time.
-/

namespace MiniC

/-! ## Truncation -/

namespace Number

/-- Bits that are not those of an infinity or of no number are the bits of their number. -/
theorem toBits_ofBits {b : UInt64} (finite : scaleField b.toNat ≠ 2047) : (Float.ofBits b).toBits = b := by
  have valid : Float.Model.Format.binary64.Valid b.toBitVec := by
    refine ⟨fun ones => absurd ?_ finite⟩
    have field := congrArg BitVec.toNat ones
    simp [Float.Model.UnpackedFloat.unpackExponent, BitVec.extractLsb, Nat.shiftRight_eq_div_pow] at field
    simpa [scaleField] using field
  have same : Float.ofBits (Float.ofModel ⟨b, valid⟩).toBits = Float.ofModel ⟨b, valid⟩ := Float.ofBits_toBits _
  exact congrArg Float.toBits same

theorem truncateBits_le (bits : Nat) : truncateBits bits ≤ bits := by
  unfold truncateBits
  dsimp only
  split
  · exact Nat.le_refl _
  · split
    · exact Nat.sub_le _ _
    · exact Nat.sub_le _ _

theorem sub_mod_eq (bits n : Nat) : bits - bits % n = n * (bits / n) := by
  have := Nat.div_add_mod bits n
  omega

/-- Without some of the bits that count fractions the scale is the same. -/
theorem scaleField_sub_mod {bits k : Nat} (small : k ≤ 52) : scaleField (bits - bits % pow2 k) = scaleField bits := by
  have split : (2 : Nat) ^ 52 = 2 ^ k * 2 ^ (52 - k) := by rw [← Nat.pow_add]; congr 1; omega
  unfold scaleField
  congr 1
  show (bits - bits % 2 ^ k) / 2 ^ 52 = bits / 2 ^ 52
  rw [sub_mod_eq, split, Nat.mul_div_mul_left _ _ (Nat.two_pow_pos k), Nat.div_div_eq_div_mul]

/-- Of the sign alone the scale is zero. -/
theorem scaleField_sign (bits : Nat) : scaleField (bits - bits % pow2 63) = 0 := by
  rw [sub_mod_eq]
  show 2 ^ 63 * _ / 2 ^ 52 % 2 ^ 11 = 0
  rw [show (2 : Nat) ^ 63 = 2 ^ 52 * 2 ^ 11 by norm_num, Nat.mul_assoc, Nat.mul_div_cancel_left _ (Nat.two_pow_pos 52),
    Nat.mul_mod_right]

theorem sub_mod_sub_mod (bits n : Nat) : bits - bits % n - (bits - bits % n) % n = bits - bits % n := by
  rw [sub_mod_eq bits, Nat.mul_mod_right, Nat.sub_zero]

/-- Truncated bits are not truncated any further. -/
theorem truncateBits_truncateBits (bits : Nat) : truncateBits (truncateBits bits) = truncateBits bits := by
  by_cases large : 1075 ≤ scaleField bits
  · have same : truncateBits bits = bits := by simp [truncateBits, large]
    rw [same, same]
  · by_cases below : scaleField bits < 1023
    · have sign : truncateBits bits = bits - bits % pow2 63 := by simp [truncateBits, large, below]
      rw [sign]
      unfold truncateBits
      simp only [scaleField_sign]
      exact sub_mod_sub_mod bits _
    · have cleared : truncateBits bits = bits - bits % pow2 (1075 - scaleField bits) := by
        simp [truncateBits, large, below]
      have scale := @scaleField_sub_mod bits (1075 - scaleField bits) (by omega)
      rw [cleared]
      unfold truncateBits
      simp only [scale, large, below, if_false]
      exact sub_mod_sub_mod bits _

/-- No finite number becomes infinite. -/
theorem scaleField_truncateBits {bits : Nat} (small : scaleField bits < 1075) :
    scaleField (truncateBits bits) ≠ 2047 := by
  unfold truncateBits
  dsimp only
  rw [if_neg (by omega)]
  split
  · rw [scaleField_sign]
    decide
  · rw [scaleField_sub_mod (by omega)]
    omega

/-- The bits of a truncated number are truncated bits, also those of an infinity or of no number. -/
theorem toBits_truncate (x : Float) : (truncate x).toBits.toNat = truncateBits x.toBits.toNat := by
  unfold truncate
  by_cases large : 1075 ≤ scaleField x.toBits.toNat
  · have same : truncateBits x.toBits.toNat = x.toBits.toNat := by simp [truncateBits, large]
    rw [same, UInt64.ofNat_toNat, Float.ofBits_toBits]
  · have small : truncateBits x.toBits.toNat < 2 ^ 64 :=
      Nat.lt_of_le_of_lt (truncateBits_le _) x.toBits.toNat_lt
    have back : (UInt64.ofNat (truncateBits x.toBits.toNat)).toNat = truncateBits x.toBits.toNat :=
      UInt64.toNat_ofNat_of_lt small
    have finite := scaleField_truncateBits (Nat.lt_of_not_le large)
    rw [toBits_ofBits (by rw [back]; exact finite), back]

/-- A truncated number is not truncated any further. -/
theorem truncate_truncate (x : Float) : truncate (truncate x) = truncate x := by
  show Float.ofBits (UInt64.ofNat (truncateBits (truncate x).toBits.toNat)) = _
  rw [toBits_truncate, truncateBits_truncateBits]
  rfl

end Number

/-! ## Casts -/

namespace Value

/-- The cast to a kind leaves the value as it is. -/
def Fits (v : Value) (k : Kind) : Prop := ∀ span, v.cast k span = .ok v

/-- What a cast yields fits. -/
theorem fits_of_cast {v w : Value} {k : Kind} {span : Option Span} (fitted : v.cast k span = .ok w) : w.Fits k := by
  intro span'
  by_cases pointer : k.isPointer = true
  · cases v with
    | number x =>
      simp only [cast, pointer, if_true] at fitted ⊢
      split at fitted
      · rename_i whole
        cases fitted
        simp [whole]
      · cases fitted
    | array r =>
      simp only [cast, pointer, if_true] at fitted
      cases fitted
      simp [cast, pointer]
    | _ => simp [cast, pointer] at fitted
  · rw [Bool.not_eq_true] at pointer
    cases v with
    | void =>
      simp only [cast, pointer, Bool.false_eq_true, if_false] at fitted
      split at fitted
      · rename_i void
        cases fitted
        simp [cast, pointer, void]
      · cases fitted
    | number x =>
      simp only [cast, pointer, Bool.false_eq_true, if_false] at fitted
      split at fitted
      · rename_i kept
        cases fitted
        simp [cast, pointer, kept]
      · cases fitted
        simp [cast, pointer, Number.truncate_truncate]
    | bool b =>
      simp only [cast, pointer, Bool.false_eq_true, if_false] at fitted
      split at fitted
      · rename_i kept
        cases fitted
        simp [cast, pointer, kept]
      · cases fitted
        have whole (b : Bool) : Number.isWhole (if b then 1.0 else 0.0) = true := by cases b <;> decide +kernel
        simp [cast, pointer, whole]
    | _ => simp [cast, pointer] at fitted

/-- Only a number that truncation does not change fits a kind of whole numbers. -/
theorem whole_of_fits {x : Float} {k : Kind} (fits : (Value.number x).Fits k) (integral : k.primitive.isFloating = false) :
    Number.isWhole x = true ∨ Number.truncate x = x := by
  have fitted := fits none
  unfold cast at fitted
  by_cases whole : Number.isWhole x = true
  · exact .inl whole
  · rw [Bool.not_eq_true] at whole
    simp only [integral, whole, Bool.or_self, Bool.false_eq_true, if_false] at fitted
    split at fitted
    · cases fitted
    · exact .inr (Value.number.inj (Except.ok.inj fitted))

/-- Whether a value is the number of some bits. -/
def hasBits (bits : UInt64) : Value → Bool
  | .number x => decide (x.toBits = bits)
  | _ => false

theorem eq_of_hasBits {v : Value} {b : UInt64} (bits : v.hasBits b = true) : v = .number (Float.ofBits b) := by
  cases v with
  | number x => rw [← of_decide_eq_true bits, Float.ofBits_toBits]
  | _ => cases bits

/-- The number of some bits does not fit a kind of whole numbers if those bits have a fraction. -/
theorem not_fits_of_bits {v : Value} {k : Kind} {b : UInt64} (bits : v.hasBits b = true)
    (fraction : Number.isWhole (Float.ofBits b) = false) (changed : (Number.truncate (Float.ofBits b)).toBits ≠ b)
    (integral : k.primitive.isFloating = false) : ¬ v.Fits k := by
  have same := eq_of_hasBits bits
  subst same
  intro fits
  rcases whole_of_fits fits integral with whole | same
  · rw [fraction] at whole
    cases whole
  · exact changed (by rw [same]; exact of_decide_eq_true bits)

end Value

/-- What a variable holds first fits. -/
theorem Kind.fits_zero {k : Kind} (proper : k.isVoid = false) : k.zero.Fits k := by
  intro span
  have whole : Number.isWhole 0.0 = true := by decide +kernel
  unfold Kind.zero
  split
  · rename_i void
    rw [isVoid, void, beq_self_eq_true] at proper
    cases proper
  · split
    · rename_i bool
      rw [bool]
      rfl
    · by_cases pointer : k.isPointer = true <;> simp [Value.cast, pointer, whole]

theorem Kind.ofSpelling_name (p : Primitive) : Kind.ofSpelling p.name = .ok (.plain p) := by
  cases p <;> decide +kernel

/-- Under a name without stars a tag has the levels that it adds. -/
theorem Kind.kind_typeTag {name : String} {p : Primitive} (plain : Kind.ofSpelling name = .ok (.plain p)) (n : UInt32) :
    (Tree.bare (.typeTag name n)).kind = .ok ⟨p, n⟩ := by
  have small : (0 : UInt32).toNat + n.toNat < pow2 32 := by simpa using n.toNat_lt
  unfold Node.kind Tree.bare
  simp only [plain, Kind.plain, if_pos small, UInt32.zero_add]

/-- The tag of a kind stands for it. -/
theorem Kind.kind_tag (k : Kind) : k.tag.kind = .ok k := kind_typeTag (ofSpelling_name k.primitive) k.pointers

/-- An array fits every pointer. -/
theorem Value.fits_array {k : Kind} (pointer : k.isPointer = true) (r : ArrayRef) : (Value.array r).Fits k := by
  intro span
  simp [cast, pointer]

end MiniC
