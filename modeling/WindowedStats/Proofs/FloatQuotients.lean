import WindowedStats.Proofs.FloatSums

/-!
# Quotients that are numbers

A float equals itself unless it is not a number (`beq_self`), so whether a mean equals itself is
the question whether a quotient of two whole numbers is a number.  It is, as long as the divisor is
a positive word (`isNaN_quotient`): such a divisor is rounded to a finite number other than zero
(`exists_unpack_ofNat`), while the dividend may be of any size and even overflow.

Rounding cuts a mantissa to 53 bits, and may have to do so twice, since a mantissa that is rounded
up to a power of two is one bit too long again.  `shiftToTarget_full` is what one cut does, and
`exists_kept_round` puts the two together.
-/

namespace WindowedStats

namespace Binary64

open Float.Model (totalExponent UnpackedFloat)
open Float.Model.Format (binary64 targetExponent)
open Float.Model.UnpackedFloat (Sign Accuracy ExtendedMantissa shiftToExponent
  shiftToTargetExponent roundWithAccuracy decreaseExponent)

/-! ## Packing makes no number disappear -/

theorem isNaN_unpack_components {x : BitVec 11} (hmax : x ≠ -1#11) (s : Sign) (f : BitVec 52) :
    (UnpackedFloat.unpack binary64 (UnpackedFloat.packComponents binary64 s x f)).isNaN = false := by
  rw [UnpackedFloat.unpack]
  simp only [UnpackedFloat.unpackExponent_packComponents]
  rw [if_neg hmax]
  split
  · split <;> rfl
  · rfl

theorem isNaN_unpack_pack (u : UnpackedFloat) :
    (UnpackedFloat.unpack binary64 (UnpackedFloat.pack binary64 u)).isNaN = u.isNaN := by
  cases u with
  | notANumber => rfl
  | infinity s => cases s <;> rfl
  | zero s => cases s <;> rfl
  | finite s m e hm =>
      simp only [UnpackedFloat.pack]
      split
      · cases s <;> rfl
      · next hin =>
        split
        · refine isNaN_unpack_components ?_ s _
          intro hmax
          have hsmall : (e + binary64.exponentBias + binary64.mantissaBitsWithoutImplicit).toNat + 1 <
              2 ^ 11 := Nat.not_le.mp hin
          have hfull : (e + binary64.exponentBias + binary64.mantissaBitsWithoutImplicit).toNat %
              2 ^ 11 = 2 ^ 11 - 1 := congrArg BitVec.toNat hmax
          omega
        · exact isNaN_unpack_components (by decide) s _

/-! ## Rounding a mantissa that is too long -/

theorem mantissa_shift (em : ExtendedMantissa) (k : Nat) :
    (em >>> k).mantissa = em.mantissa / 2 ^ k := by
  induction k with
  | zero => exact (Nat.div_one em.mantissa).symm
  | succ k ih =>
      show (em >>> k).mantissa / 2 = em.mantissa / 2 ^ (k + 1)
      rw [ih, Nat.div_div_eq_div_mul, Nat.pow_succ]

theorem mantissa_ofMantissaAndAccuracy (M : Nat) (accuracy : Accuracy) :
    (ExtendedMantissa.ofMantissaAndAccuracy M accuracy).mantissa = M := by
  cases accuracy with
  | exact => rfl
  | inexact side => cases side <;> rfl

/-- Rounding adds one at most. -/
theorem roundedMantissa_bounds (em : ExtendedMantissa) :
    em.mantissa ≤ em.roundedMantissa ∧ em.roundedMantissa ≤ em.mantissa + 1 := by
  obtain ⟨m, round, sticky⟩ := em
  have hodd : m % 2 < 2 := Nat.mod_lt m Nat.two_pos
  cases round <;> cases sticky <;>
    simp only [ExtendedMantissa.roundedMantissa, ExtendedMantissa.accuracy,
      Accuracy.roundToNearestEven] <;> omega

/-- A long mantissa is cut to exactly 53 bits, unless its exponent is close to the least one. -/
theorem shiftToTarget_full {M : Nat} {E : Int} (accuracy : Accuracy) (hM : 2 ^ 52 ≤ M)
    (hE : -1022 ≤ M.log2 + E) :
    ∃ em, shiftToTargetExponent binary64 M E accuracy = (em, M.log2 - 52 + E) ∧
      2 ^ 52 ≤ em.mantissa ∧ em.mantissa < 2 ^ 53 := by
  have hne : M ≠ 0 := by omega
  have hlog : 52 ≤ M.log2 := (Nat.le_log2 hne).mpr hM
  have htarget : targetExponent binary64 (totalExponent M E) = M.log2 - 52 + E := by
    simp only [targetExponent, totalExponent, Float.Model.Format.mantissaBits,
      Float.Model.Format.minExponent]
    omega
  have hshift : (M.log2 - 52 + E - E).toNat = M.log2 - 52 := by omega
  have hsplit : 2 ^ M.log2 = 2 ^ 52 * 2 ^ (M.log2 - 52) := by
    rw [← Nat.pow_add]
    congr 1
    omega
  have hlow := Nat.log2_self_le hne
  have hhigh := Nat.lt_log2_self (n := M)
  rw [Nat.pow_succ, hsplit] at hhigh
  rw [hsplit] at hlow
  have hpos := Nat.two_pow_pos (M.log2 - 52)
  refine ⟨ExtendedMantissa.ofMantissaAndAccuracy M accuracy >>> (M.log2 - 52), ?_, ?_⟩
  · simp only [shiftToTargetExponent, shiftToExponent, htarget, hshift, Prod.mk.injEq, true_and]
    omega
  · rw [mantissa_shift, mantissa_ofMantissaAndAccuracy]
    refine ⟨(Nat.le_div_iff_mul_le hpos).mpr hlow, (Nat.div_lt_iff_lt_mul hpos).mpr ?_⟩
    rw [Nat.pow_succ, Nat.mul_right_comm]
    exact hhigh

/-- A long mantissa with an exponent well in range is rounded to a finite number other than
zero. -/
theorem exists_kept_round {M : Nat} {E : Int} (s : Sign) (accuracy : Accuracy) (hM : 2 ^ 52 ≤ M)
    (hlow : -1022 ≤ M.log2 + E) (hhigh : M.log2 + E ≤ 1022) :
    ∃ m e, ∃ h : Kept m e, roundWithAccuracy binary64 s M E accuracy = .finite s m e h.pos := by
  obtain ⟨em, hfirst, hle, hlt⟩ := shiftToTarget_full accuracy hM hlow
  obtain ⟨hround, hround'⟩ := roundedMantissa_bounds em
  have hcut : 2 ^ 52 ≤ em.roundedMantissa := Nat.le_trans hle hround
  have hlog : 52 ≤ em.roundedMantissa.log2 := (Nat.le_log2 (by omega)).mpr hcut
  have hlog' : em.roundedMantissa.log2 < 54 := (Nat.log2_lt (by omega)).mpr (by omega)
  -- A mantissa that is rounded up to 54 bits is cut once more.
  obtain ⟨em', hsecond, hle', hlt'⟩ :=
    shiftToTarget_full (E := M.log2 - 52 + E) .exact hcut (by omega)
  have hkept : Kept em'.mantissa (em.roundedMantissa.log2 - 52 + (M.log2 - 52 + E)) :=
    { pos := by omega
      lt := hlt'
      least_le := by omega
      le_greatest := by omega
      full := fun _ => hle' }
  refine ⟨_, _, hkept, ?_⟩
  simp only [roundWithAccuracy, hfirst, hsecond]
  rw [dif_neg hkept.pos.ne']

theorem isNaN_roundWithAccuracy (s : Sign) (M : Nat) (E : Int) (accuracy : Accuracy) :
    (roundWithAccuracy binary64 s M E accuracy).isNaN = false := by
  simp only [roundWithAccuracy]
  split <;> rfl

/-! ## Whole numbers as floats -/

/-- A number below two to the power 53 is normalized to a finite number. -/
theorem exists_kept_normalize {n : Nat} (hpos : 0 < n) (hn : n < 2 ^ 53) :
    ∃ m e, ∃ h : Kept m e,
      UnpackedFloat.normalize binary64 n 0 .positive = .finite .positive m e h.pos := by
  have hlog : n.log2 < 53 := (Nat.log2_lt hpos.ne').mpr hn
  have htarget : targetExponent binary64 (totalExponent n 0) = n.log2 - 52 := by
    simp only [targetExponent, totalExponent, Float.Model.Format.mantissaBits,
      Float.Model.Format.minExponent]
    omega
  have hshift : (0 - ((n.log2 : Int) - 52)).toNat = 52 - n.log2 := by omega
  have hlong : (n <<< (52 - n.log2)).log2 = 52 := by
    rw [Nat.shiftLeft_eq, log2_scale hpos]
    omega
  have hM : 2 ^ 52 ≤ n <<< (52 - n.log2) := by
    rw [← Nat.le_log2 ?_, hlong]
    rw [Nat.shiftLeft_eq]
    exact (Nat.mul_pos hpos (Nat.two_pow_pos _)).ne'
  have hnormalize := normalize_apply (E := 0) .positive .positive hpos
  rw [show Sign.positive.apply n = n from rfl] at hnormalize
  rw [hnormalize]
  simp only [UnpackedFloat.round, htarget, decreaseExponent, hshift]
  exact exists_kept_round .positive .exact hM (by omega) (by omega)

theorem unpack_ofModel_kept {s : Sign} {m : Nat} {e : Int} (h : Kept m e) {u : UnpackedFloat}
    (hu : u = .finite s m e h.pos) :
    (Float.ofModel (.pack u)).toModel.unpack = .finite s m e h.pos := by
  rw [hu]
  exact unpack_pack_finite s h

/-- Multiplying by one changes nothing. -/
theorem mul_one_eq {s : Sign} {m : Nat} {e : Int} (h : Kept m e) :
    UnpackedFloat.mul binary64 (.finite s m e h.pos)
      (.finite .positive (2 ^ 52) (-52) (Nat.two_pow_pos 52)) = .finite s m e h.pos := by
  have hsign : s * .positive = s := by cases s <;> rfl
  have hexponent : e + -52 = e - (52 : Nat) := rfl
  show roundWithAccuracy binary64 (s * .positive) (m * 2 ^ 52) (e + -52) .exact = _
  rw [hsign, hexponent]
  exact roundWithAccuracy_scale s h 52

theorem ofScientific_eq {n : Nat} (hpos : 0 < n) :
    UnpackedFloat.ofScientific binary64 n 0 =
      roundWithAccuracy binary64 .positive (n <<< 53) (-53) .exact := by
  have hbits : (2 : Int) ^ binary64.exponentBits = 2048 := rfl
  rw [UnpackedFloat.ofScientific, dif_neg hpos.ne', if_neg (by decide), if_neg (by omega),
    if_pos (by decide)]
  show roundWithAccuracy binary64 .positive (n <<< 53 * 1) (-53) .exact = _
  rw [Nat.mul_one]

/-- A positive word is a finite number other than zero. -/
theorem exists_unpack_ofNat {n : Nat} (hpos : 0 < n) (hn : n < 2 ^ 64) :
    ∃ s m e h, (Float.ofNat n).toModel.unpack = .finite s m e h := by
  show ∃ s m e h, (Float.ofScientific n false 0).toModel.unpack = .finite s m e h
  rw [Float.ofScientific]
  split
  · next hsmall =>
    obtain ⟨m, e, hkept, hround⟩ := exists_kept_normalize hpos hsmall.1
    have hword : n.toUInt64.toNat = n := Nat.mod_eq_of_lt hn
    have hfloat : n.toUInt64.toFloat.toModel.unpack = .finite .positive m e hkept.pos := by
      refine unpack_ofModel_kept hkept ?_
      show UnpackedFloat.normalize binary64 n.toUInt64.toNat 0 .positive = _
      rw [hword, hround]
    have hone : (Float.ofBits 4607182418800017408).toModel.unpack =
        .finite .positive (2 ^ 52) (-52) (Nat.two_pow_pos 52) := rfl
    refine ⟨.positive, m, e, hkept.pos, ?_⟩
    show (Float.ofModel (.pack (UnpackedFloat.mul binary64 n.toUInt64.toFloat.toModel.unpack
      (Float.ofBits 4607182418800017408).toModel.unpack))).toModel.unpack = _
    rw [hfloat, hone]
    exact unpack_ofModel_kept hkept (mul_one_eq hkept)
  · next hlarge =>
    have hlong : (n <<< 53).log2 = n.log2 + 53 := by rw [Nat.shiftLeft_eq, log2_scale hpos]
    have hM : 2 ^ 52 ≤ n <<< 53 := by
      rw [Nat.shiftLeft_eq]
      omega
    have hlog : n.log2 < 64 := (Nat.log2_lt hpos.ne').mpr hn
    obtain ⟨m, e, hkept, hround⟩ := exists_kept_round (E := -53) .positive .exact hM (by omega)
      (by omega)
    refine ⟨.positive, m, e, hkept.pos, unpack_ofModel_kept hkept ?_⟩
    rw [← hround]
    exact ofScientific_eq hpos

/-- A natural number, whatever its size, is a number as a float. -/
theorem isNaN_ofNat (n : Nat) : (Float.ofNat n).isNaN = false := by
  rcases Nat.eq_zero_or_pos n with rfl | hpos
  · decide
  · by_cases hn : n < 2 ^ 64
    · obtain ⟨s, m, e, h, hunpack⟩ := exists_unpack_ofNat hpos hn
      show (Float.ofNat n).toModel.unpack.isNaN = false
      rw [hunpack]
      rfl
    · show (Float.ofScientific n false 0).toModel.unpack.isNaN = false
      rw [Float.ofScientific, dif_neg (by omega)]
      show (UnpackedFloat.unpack binary64 (UnpackedFloat.pack binary64
        (UnpackedFloat.ofScientific binary64 n 0))).isNaN = false
      rw [isNaN_unpack_pack, ofScientific_eq hpos, isNaN_roundWithAccuracy]

theorem isNaN_neg (x : Float) : (-x).isNaN = x.isNaN := by
  show (UnpackedFloat.unpack binary64 (UnpackedFloat.pack binary64 x.toModel.unpack.neg)).isNaN = _
  rw [isNaN_unpack_pack]
  show x.toModel.unpack.neg.isNaN = x.toModel.unpack.isNaN
  cases x.toModel.unpack <;> rfl

theorem isNaN_ofInt (z : Int) : (Float.ofInt z).isNaN = false := by
  cases z with
  | ofNat n => exact isNaN_ofNat n
  | negSucc n => exact (isNaN_neg _).trans (isNaN_ofNat n.succ)

/-! ## Quotients -/

theorem isNaN_div {x y : Float} (hx : x.isNaN = false) {s : Sign} {m : Nat} {e : Int} {h : 0 < m}
    (hy : y.toModel.unpack = .finite s m e h) : (x / y).isNaN = false := by
  show (UnpackedFloat.unpack binary64 (UnpackedFloat.pack binary64
    (UnpackedFloat.div binary64 x.toModel.unpack y.toModel.unpack))).isNaN = false
  rw [isNaN_unpack_pack, hy]
  have hx' : x.toModel.unpack.isNaN = false := hx
  cases hu : x.toModel.unpack with
  | notANumber => rw [hu] at hx'; cases hx'
  | infinity t => rfl
  | zero t => rfl
  | finite t n f hn => exact isNaN_roundWithAccuracy _ _ _ _

/-- The quotient of a whole number and a positive word is a number. -/
theorem isNaN_quotient (z : Int) {n : Nat} (hpos : 0 < n) (hn : n < 2 ^ 64) :
    (Float.ofInt z / Float.ofNat n).isNaN = false := by
  obtain ⟨s, m, e, h, hunpack⟩ := exists_unpack_ofNat hpos hn
  exact isNaN_div (isNaN_ofInt z) hunpack

/-- A float equals itself unless it is not a number. -/
theorem beq_self (x : Float) : (x == x) = !x.isNaN := by
  show (x.toModel.unpack.compare x.toModel.unpack == some .eq) = !x.toModel.unpack.isNaN
  cases x.toModel.unpack with
  | notANumber => rfl
  | infinity s => cases s <;> rfl
  | zero s => rfl
  | finite s m e h =>
      cases s <;> simp [UnpackedFloat.compare, UnpackedFloat.isNaN]

end Binary64

end WindowedStats
