import MiniC.Number.Scaled
import MiniC.Proofs.Fitting

/-!
# Finite numbers

Every number that is read of a decimal is finite. A number is finite exactly if its scale is
not the greatest (`isFinite_iff`), so it is enough to follow scales: that of a count is small
(`scale_ofNat_le`), and a quotient by a number that is not below one has hardly a greater
scale than its dividend, rounding included (`scale_div_le`).
-/

namespace MiniC.Number
open Float.Model (Format UnpackedFloat totalExponent)
open Float.Model.UnpackedFloat

/-! ## Scales -/

/-- The scale of a number. -/
def scale (x : Float) : Nat := scaleField x.toBits.toNat

/-- A number taken apart is zero, or finite with an exponent up to a bound. -/
def Within (bound : Int) : UnpackedFloat → Prop
  | .zero _ => True
  | .finite _ _ e _ => e ≤ bound
  | _ => False

/-- What a number of a scale is taken apart into: zero, or a significand of at most fifty-three
    bits with the exponent of that scale. -/
def Tells (n : Nat) : UnpackedFloat → Prop
  | .zero _ => n = 0
  | .finite _ m e _ => m < 2 ^ 53 ∧ e = (max n 1 : Nat) - 1075
  | _ => False

theorem scaleField_eq (b : BitVec 64) :
    scaleField b.toNat = (@unpackExponent Format.binary64 b).toNat := by
  simp [Float.Model.UnpackedFloat.unpackExponent, BitVec.extractLsb, Nat.shiftRight_eq_div_pow, scaleField]

theorem scale_eq (x : Float) : scale x = (@unpackExponent Format.binary64 x.toModel.toBits.toBitVec).toNat :=
  scaleField_eq _

/-- A number whose scale is not the greatest is taken apart into something finite. -/
theorem tells_unpack {x : Float} (finite : scale x < 2047) : Tells (scale x) x.toModel.unpack := by
  rw [scale_eq] at finite ⊢
  unfold Float.Model.unpack
  generalize x.toModel.toBits.toBitVec = b at finite ⊢
  unfold UnpackedFloat.unpack
  dsimp only
  have inside : @unpackExponent Format.binary64 b ≠ -1#_ := by
    intro ones
    rw [ones] at finite
    exact absurd finite (by decide)
  rw [if_neg inside]
  split
  · rename_i zero
    split
    · exact congrArg BitVec.toNat zero
    · refine ⟨Nat.lt_trans (BitVec.isLt _) (by decide), ?_⟩
      rw [zero]
      decide
  · rename_i normal
    have positive : 0 < (@unpackExponent Format.binary64 b).toNat :=
      Nat.pos_of_ne_zero fun zero => normal (BitVec.eq_of_toNat_eq zero)
    refine ⟨BitVec.isLt _, ?_⟩
    rw [Nat.max_eq_left positive]
    rfl

/-- The scale of what is put together follows from its exponent. -/
theorem scale_pack {bound : Int} {u : UnpackedFloat} (within : Within bound u) {b : Nat} (fits : bound + 1075 ≤ b)
    (small : b < 2047) : scale (.ofModel (.pack u)) ≤ b := by
  rw [scale_eq]
  show (unpackExponent (UnpackedFloat.pack Format.binary64 u)).toNat ≤ b
  cases u with
  | infinity s => cases within
  | notANumber => cases within
  | zero s =>
    show (unpackExponent (packComponents Format.binary64 s 0 0)).toNat ≤ b
    rw [unpackExponent_packComponents]
    exact Nat.zero_le b
  | finite s m e pos =>
    have biased : (e + Format.binary64.exponentBias + (52 : Nat)).toNat ≤ b := by
      show (e + 1023 + 52).toNat ≤ b
      have : e ≤ bound := within
      omega
    unfold UnpackedFloat.pack
    dsimp only
    rw [if_neg (by show ¬ 2048 ≤ _; omega)]
    split
    · rw [unpackExponent_packComponents, BitVec.toNat_ofNat]
      exact Nat.le_trans (Nat.mod_le _ _) biased
    · rw [unpackExponent_packComponents]
      exact Nat.zero_le b

/-! ## Rounding -/

theorem shift_le (m : ExtendedMantissa) (n : Nat) : (m >>> n).mantissa ≤ m.mantissa := by
  induction n with
  | zero => exact Nat.le_refl _
  | succ n ih =>
    show (ExtendedMantissa.shiftRightOne (m >>> n)).mantissa ≤ m.mantissa
    exact Nat.le_trans (Nat.div_le_self _ 2) ih

theorem rounded_le (m : ExtendedMantissa) : m.roundedMantissa ≤ m.mantissa + 1 := by
  unfold ExtendedMantissa.roundedMantissa
  cases m.accuracy with
  | exact => exact Nat.le_succ _
  | inexact order =>
    cases order with
    | lt => exact Nat.le_succ _
    | eq =>
      show _ + _ % 2 ≤ _
      omega
    | gt => exact Nat.le_refl _

/-- A significand with some bits too many is shifted by no more than these. -/
theorem shiftToTargetExponent_le {m k : Nat} (small : m < 2 ^ (52 + k)) (e : Int) (a : Accuracy) :
    (shiftToTargetExponent Format.binary64 m e a).1.mantissa ≤ m ∧
      (shiftToTargetExponent Format.binary64 m e a).2 ≤ max e (-1074) + k := by
  have bits : m.log2 ≤ 51 + k := by
    by_cases zero : m = 0
    · simp [zero]
    · have := (Nat.log2_lt zero).mpr small
      omega
  constructor
  · refine Nat.le_trans (shift_le _ _) ?_
    cases a with
    | exact => exact Nat.le_refl m
    | inexact order => cases order <;> exact Nat.le_refl m
  · show e + ((max ((m.log2 : Int) + 1 + e - (53 : Nat)) (-1074) - e).toNat : Int) ≤ _
    omega

/-- Rounding adds to an exponent twice the bits too many, and perhaps one for the carry. -/
theorem within_round {m k : Nat} (small : m < 2 ^ (52 + k)) (s : Sign) (e : Int) (a : Accuracy) :
    Within (max e (-1074) + (2 * k + 1)) (roundWithAccuracy Format.binary64 s m e a) := by
  have first := shiftToTargetExponent_le small e a
  unfold roundWithAccuracy
  generalize shiftToTargetExponent Format.binary64 m e a = shifted at first ⊢
  obtain ⟨em, e₁⟩ := shifted
  have carried : em.roundedMantissa < 2 ^ (52 + (k + 1)) := by
    have := rounded_le em
    have := first.1
    have : 2 ^ (52 + (k + 1)) = 2 * 2 ^ (52 + k) := by rw [← Nat.add_assoc, Nat.pow_succ, Nat.mul_comm]
    have := Nat.two_pow_pos (52 + k)
    dsimp only at *
    omega
  have second := (shiftToTargetExponent_le carried e₁ .exact).2
  dsimp only at first second ⊢
  split
  · exact trivial
  · show _ ≤ _
    omega

/-! ## Products and quotients -/

theorem Within.mono {bound bound' : Int} {u : UnpackedFloat} (h : Within bound u) (le : bound ≤ bound') : Within bound' u := by
  cases u with
  | finite s m e pos => exact Int.le_trans h le
  | zero s => exact trivial
  | _ => cases h

/-- The quotient of two significands has two bits too many at most, and no greater exponent than
    the difference. -/
theorem divCore_le {m m' : Nat} (small : m < 2 ^ 53) (pos' : 0 < m') (e e' : Int) :
    (divCore Format.binary64 m e m' e').1 < 2 ^ (52 + 2) ∧ (divCore Format.binary64 m e m' e').2.1 ≤ e - e' := by
  refine ⟨?_, Int.min_le_left _ _⟩
  show m <<< _ / m' < _
  rw [Nat.div_lt_iff_lt_mul pos', Nat.shiftLeft_eq]
  generalize shift : (e - e' - min (e - e') (Format.binary64.targetExponent (totalExponent m e - totalExponent m' e'))).toNat = n
  have shifted : n = 0 ∨ (n : Int) ≤ m'.log2 - m.log2 + 53 := by
    simp only [Format.targetExponent, totalExponent, Format.mantissaBits, Format.minExponent] at shift
    omega
  rcases shifted with rfl | shifted
  · calc
      m * 2 ^ 0 < 2 ^ 53 := by rwa [Nat.pow_zero, Nat.mul_one]
      _ ≤ 2 ^ (52 + 2) := by decide
      _ ≤ 2 ^ (52 + 2) * m' := Nat.le_mul_of_pos_right _ pos'
  · calc
      m * 2 ^ n < 2 ^ (m.log2 + 1) * 2 ^ n := Nat.mul_lt_mul_of_pos_right Nat.lt_log2_self (Nat.two_pow_pos n)
      _ = 2 ^ (m.log2 + 1 + n) := (Nat.pow_add 2 _ n).symm
      _ ≤ 2 ^ (52 + 2 + m'.log2) := Nat.pow_le_pow_right (by decide) (by omega)
      _ = 2 ^ (52 + 2) * 2 ^ m'.log2 := Nat.pow_add 2 _ _
      _ ≤ 2 ^ (52 + 2) * m' := Nat.mul_le_mul_left _ (Nat.log2_self_le (Nat.ne_of_gt pos'))

theorem within_mul {u v : UnpackedFloat} {n n' : Nat} (hu : Tells n u) (hv : Tells n' v) :
    Within ((n + n' - 1075 + 120 : Nat) - 1075) (mul Format.binary64 u v) := by
  cases u with
  | infinity s => cases hu
  | notANumber => cases hu
  | zero s =>
    cases v with
    | infinity s' => cases hv
    | notANumber => cases hv
    | zero s' => exact trivial
    | finite s' m' e' pos' => exact trivial
  | finite s m e pos =>
    cases v with
    | infinity s' => cases hv
    | notANumber => cases hv
    | zero s' => exact trivial
    | finite s' m' e' pos' =>
      have bits : m * m' < 2 ^ (52 + 54) := by
        have := Nat.mul_lt_mul'' hu.1 hv.1
        omega
      refine (within_round bits (s * s') (e + e') .exact).mono ?_
      have := hu.2
      have := hv.2
      omega

theorem within_div {u v : UnpackedFloat} {n n' : Nat} (hu : Tells n u) (hv : Tells n' v) (notBelow : 1023 ≤ n') :
    Within ((n + 60 : Nat) - 1075) (div Format.binary64 u v) := by
  cases v with
  | infinity s' => cases hv
  | notANumber => cases hv
  | zero s' =>
    have : n' = 0 := hv
    omega
  | finite s' m' e' pos' =>
    cases u with
    | infinity s => cases hu
    | notANumber => cases hu
    | zero s => exact trivial
    | finite s m e pos =>
      have core := divCore_le hu.1 pos' e e'
      show Within _ (roundWithAccuracy Format.binary64 _ _ _ _)
      refine (within_round core.1 (s / s') _ _).mono ?_
      have := hu.2
      have := hv.2
      have := core.2
      omega

/-- A product has hardly a greater scale than those of its factors say. -/
theorem scale_mul_le {x y : Float} (room : scale x + scale y < 3000) (hx : scale x < 2047) (hy : scale y < 2047) :
    scale (x * y) ≤ scale x + scale y - 1075 + 120 :=
  scale_pack (within_mul (tells_unpack hx) (tells_unpack hy)) (by omega) (by omega)

/-- A quotient by a number that is not below one has hardly a greater scale than the dividend. -/
theorem scale_div_le {x y : Float} (room : scale x < 1900) (notBelow : 1023 ≤ scale y) (hy : scale y < 2047) :
    scale (x / y) ≤ scale x + 60 :=
  scale_pack (within_div (tells_unpack (Nat.lt_trans room (by decide))) (tells_unpack hy) notBelow) (by omega) (by omega)

/-- A number is finite exactly if its scale is not the greatest. -/
theorem isFinite_iff {x : Float} : x.isFinite = true ↔ scale x < 2047 := by
  constructor
  · intro finite
    have inside : @unpackExponent Format.binary64 x.toModel.toBits.toBitVec ≠ -1#_ := by
      intro ones
      have apart : x.toModel.unpack.isFinite = true := finite
      unfold Float.Model.unpack UnpackedFloat.unpack at apart
      dsimp only at apart
      rw [if_pos ones] at apart
      split at apart <;> cases apart
    have last : (@unpackExponent Format.binary64 x.toModel.toBits.toBitVec).toNat ≠ 2047 :=
      fun same => inside (BitVec.eq_of_toNat_eq same)
    have : _ < 2 ^ 11 := (@unpackExponent Format.binary64 x.toModel.toBits.toBitVec).isLt
    rw [scale_eq]
    omega
  · intro finite
    have told := tells_unpack finite
    show x.toModel.unpack.isFinite = true
    cases apart : x.toModel.unpack with
    | infinity s => rw [apart] at told; cases told
    | notANumber => rw [apart] at told; cases told
    | zero s => rfl
    | finite s m e pos => rfl

theorem within_neg {u : UnpackedFloat} {n : Nat} (h : Tells n u) : Within ((max n 1 : Nat) - 1075) u.neg := by
  cases u with
  | infinity s => cases h
  | notANumber => cases h
  | zero s => exact trivial
  | finite s m e pos => exact Int.le_of_eq h.2

/-- The opposite of a finite number is finite. -/
theorem isFinite_neg {x : Float} (finite : x.isFinite = true) : (-x).isFinite = true := by
  have small := isFinite_iff.mp finite
  have opposite : scale (-x) ≤ max (scale x) 1 := scale_pack (within_neg (tells_unpack small)) (by omega) (by omega)
  exact isFinite_iff.mpr (by omega)

/-! ## Counts and powers of ten -/

theorem nearestExponent_le {n : Nat} (small : n < 2 ^ 64) (some : n ≠ 0) :
    nearestExponent n 1 ≤ 12 ∧ (n.log2 : Int) - 53 ≤ nearestExponent n 1 := by
  have bits : n.log2 < 64 := (Nat.log2_lt some).mpr small
  have one : Nat.log2 1 = 0 := by decide
  unfold nearestExponent
  rw [one]
  dsimp only
  split
  · omega
  · split <;> omega

theorem roundQuotient_le (num den : Nat) : roundQuotient num den ≤ num / den + 1 := by
  unfold roundQuotient
  dsimp only
  split <;> omega

theorem nearestBits_le {n : Nat} (small : n < 2 ^ 64) (some : n ≠ 0) : nearestBits n 1 ≤ 1092 * 2 ^ 52 := by
  obtain ⟨above, below⟩ := nearestExponent_le small some
  unfold nearestBits
  dsimp only
  generalize nearestExponent n 1 = q at above below ⊢
  have quotient : n * pow2 (-q).toNat / (1 * pow2 q.toNat) ≤ 2 ^ 54 := by
    refine Nat.div_le_of_le_mul ?_
    rw [Nat.one_mul]
    show n * 2 ^ (-q).toNat ≤ 2 ^ q.toNat * 2 ^ 54
    calc
      n * 2 ^ (-q).toNat ≤ 2 ^ (n.log2 + 1) * 2 ^ (-q).toNat := Nat.mul_le_mul_right _ (Nat.le_of_lt Nat.lt_log2_self)
      _ = 2 ^ (n.log2 + 1 + (-q).toNat) := (Nat.pow_add 2 _ _).symm
      _ ≤ 2 ^ (q.toNat + 54) := Nat.pow_le_pow_right (by decide) (by omega)
      _ = 2 ^ q.toNat * 2 ^ 54 := Nat.pow_add 2 _ _
  have significand := roundQuotient_le (n * pow2 (-q).toNat) (1 * pow2 q.toNat)
  generalize roundQuotient _ _ = k at significand ⊢
  have size : pow2 52 = 2 ^ 52 := rfl
  rw [size]
  split
  · omega
  · have : (q + 1075).toNat ≤ 1087 := by omega
    have := Nat.mul_le_mul_right (2 ^ 52) this
    omega

/-- The scale of bits that are not those of an infinity. -/
theorem scale_ofBits {b : Nat} (finite : scaleField b ≠ 2047) (small : b < 2 ^ 64) :
    scale (Float.ofBits (UInt64.ofNat b)) = scaleField b := by
  have same : (UInt64.ofNat b).toNat = b := UInt64.toNat_ofNat_of_lt small
  unfold scale
  rw [toBits_ofBits (by rwa [same]), same]

theorem ofNat_eq {n : Nat} (some : n ≠ 0) : ofNat n = Float.ofBits (UInt64.ofNat (nearestBits n 1)) := by
  unfold ofNat nearest
  simp only [if_neg some, Bool.false_eq_true, if_false]

/-- A count has a small scale. -/
theorem scale_ofNat_le {n : Nat} (small : n < 2 ^ 64) : scale (ofNat n) ≤ 1092 := by
  by_cases none : n = 0
  · rw [none]
    show scale (Float.ofBits (UInt64.ofNat 0)) ≤ 1092
    rw [scale_ofBits (by decide) (by decide)]
    decide
  · have bits := nearestBits_le small none
    rw [ofNat_eq none]
    generalize nearestBits n 1 = b at bits ⊢
    have field : scaleField b ≤ 1092 := by
      refine Nat.le_trans (Nat.mod_le _ _) ?_
      show b / 2 ^ 52 ≤ 1092
      omega
    rw [scale_ofBits (by omega) (by omega)]
    exact field

theorem nearestBits_pow10 : (List.range (greatestPower + 1)).all (fun n =>
    1023 * 2 ^ 52 ≤ nearestBits (pow10 n) 1 ∧ nearestBits (pow10 n) 1 < 2047 * 2 ^ 52) = true := by
  decide +kernel

/-- The powers of ten that are numbers are not below one. -/
theorem scale_powerOfTen {n : Nat} (power : n ≤ greatestPower) :
    1023 ≤ scale (powerOfTen n) ∧ scale (powerOfTen n) < 2047 := by
  have among : n ∈ List.range (greatestPower + 1) := List.mem_range.mpr (Nat.lt_succ_of_le power)
  have bits := of_decide_eq_true (List.all_eq_true.mp nearestBits_pow10 n among)
  have positive : 0 < 10 ^ n := Nat.pow_pos (by decide)
  have some : pow10 n ≠ 0 := Nat.ne_of_gt positive
  unfold powerOfTen
  rw [ofNat_eq some]
  generalize nearestBits (pow10 n) 1 = b at bits ⊢
  have field : scaleField b = b / 2 ^ 52 := Nat.mod_eq_of_lt (by show b / 2 ^ 52 < 2 ^ 11; omega)
  rw [scale_ofBits (by omega) (by omega), field]
  omega

/-! ## Decimals -/

theorem isFinite_overPower {x : Float} (small : scale x ≤ 1092) (n : Nat) : (overPower x n).isFinite = true := by
  unfold overPower
  split
  · rename_i power
    obtain ⟨notBelow, finite⟩ := scale_powerOfTen power
    have := scale_div_le (x := x) (by omega) notBelow finite
    exact isFinite_iff.mpr (by omega)
  · split
    · rename_i powers
      obtain ⟨notBelow, finite⟩ := scale_powerOfTen (Nat.le_refl greatestPower)
      obtain ⟨notBelow', finite'⟩ := scale_powerOfTen (n := n - greatestPower) (by omega)
      have first := scale_div_le (x := x) (by omega) notBelow finite
      have := scale_div_le (x := x / powerOfTen greatestPower) (by omega) notBelow' finite'
      exact isFinite_iff.mpr (by omega)
    · exact isFinite_iff.mpr (Nat.lt_of_le_of_lt (scale_ofNat_le (by decide)) (by decide))

/-- Every number that is read of a decimal is finite. -/
theorem isFinite_of_ofScaled? {negative : Bool} {d : Decimal} {x : Float} (small : d.digits < 2 ^ 64)
    (found : ofScaled? negative d = some x) : x.isFinite = true := by
  have count := scale_ofNat_le small
  obtain ⟨y, sized, rfl⟩ := Option.map_eq_some_iff.mp found
  have finite : y.isFinite = true := by
    split at sized
    · cases sized
      exact isFinite_overPower count _
    · unfold timesPower? at sized
      split at sized
      · cases sized
        exact isFinite_iff.mpr (by omega)
      · split at sized
        · cases sized
        · dsimp only at sized
          split at sized
          · rename_i finite
            cases sized
            exact finite
          · cases sized
  cases negative with
  | false => exact finite
  | true => exact isFinite_neg finite

/-- Every count is read as a number. -/
theorem isSome_ofScaled? {n : Nat} (small : n < 2 ^ 64) : (ofScaled? false ⟨n, 0⟩).isSome = true := by
  have count := scale_ofNat_le small
  have one : scale (powerOfTen 0) ≤ 1092 := scale_ofNat_le (by decide)
  have product := scale_mul_le (x := ofNat n) (y := powerOfTen 0) (by omega) (by omega) (by omega)
  have finite : (ofNat n * powerOfTen 0).isFinite = true := isFinite_iff.mpr (by omega)
  show ((timesPower? (ofNat n) 0).map _).isSome = true
  rw [Option.isSome_map]
  unfold timesPower?
  split
  · rfl
  · rw [if_neg (Nat.not_lt_zero _)]
    dsimp only
    rw [if_pos finite]
    rfl

end MiniC.Number
