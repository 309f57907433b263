import Mathlib

/-!
# Exact sums of floating-point numbers

A floating-point number stands for a rational number, unless it is infinite or not a number at all.
A sum of two numbers is rounded; but where the sum of the rational numbers is one that a
floating-point number stands for, rounding does nothing to it.  That is `add_exact`, and `sub_exact`
is the same for a difference.  Both rest on `round_eq`: whatever a mantissa of 53 bits with an
exponent stands for is rounded to these two, however it is written before.

Two numbers may stand for the same rational number, since zero has two signs.  The sums that begin
with the positive zero avoid the negative one, and such *settled* numbers are determined by what
they stand for (`IsSettled.eq_of_number`).

What is infinite or not a number stays so under sums, differences and quotients
(`number_add_eq_none` and its companions): nothing that is added later makes a rational number of
it.
-/

namespace WindowedStats

namespace Binary64

open Float.Model (totalExponent UnpackedFloat)
open Float.Model.Format (binary64 targetExponent)
open Float.Model.UnpackedFloat (Sign Accuracy ExtendedMantissa shiftToExponent
  shiftToTargetExponent roundWithAccuracy decreaseExponent)

/-! ## Rounding what needs no rounding -/

/-- A mantissa of 53 bits at most with an exponent in range; a shorter mantissa has the least
exponent. -/
structure Kept (m : Nat) (e : Int) : Prop where
  pos : 0 < m
  lt : m < 2 ^ 53
  least_le : -1074 ≤ e
  le_greatest : e ≤ 971
  full : -1074 < e → 2 ^ 52 ≤ m

variable {m M : Nat} {e E : Int}

theorem Kept.log2_lt (h : Kept m e) : m.log2 < 53 := (Nat.log2_lt h.pos.ne').mpr h.lt

theorem Kept.target_eq (h : Kept m e) : targetExponent binary64 (totalExponent m e) = e := by
  have hlt := h.log2_lt
  have hfull : -1074 < e → 52 ≤ m.log2 := fun he => (Nat.le_log2 h.pos.ne').mpr (h.full he)
  have hleast := h.least_le
  simp only [targetExponent, totalExponent, Float.Model.Format.mantissaBits,
    Float.Model.Format.minExponent]
  omega

theorem log2_scale (hm : 0 < m) (k : Nat) : (m * 2 ^ k).log2 = m.log2 + k := by
  induction k with
  | zero => simp
  | succ k ih =>
      have hne : m * 2 ^ k ≠ 0 := (Nat.mul_pos hm (Nat.two_pow_pos k)).ne'
      rw [Nat.pow_succ, ← Nat.mul_assoc, Nat.mul_comm, Nat.log2_two_mul hne, ih]
      omega

theorem totalExponent_scale (hm : 0 < m) (k : Nat) (e : Int) :
    totalExponent (m * 2 ^ k) (e - k) = totalExponent m e := by
  simp only [totalExponent, log2_scale hm]
  omega

/-- Bits that are zero are shifted out without a trace. -/
theorem shift_scale (m k : Nat) :
    ExtendedMantissa.ofMantissaAndAccuracy (m * 2 ^ k) .exact >>> k = ⟨m, false, false⟩ := by
  induction k generalizing m with
  | zero => rw [Nat.pow_zero, Nat.mul_one]; rfl
  | succ k ih =>
      have hprev := ih (m * 2)
      rw [Nat.mul_assoc, ← Nat.pow_succ'] at hprev
      show ExtendedMantissa.shiftRightOne
        (ExtendedMantissa.ofMantissaAndAccuracy (m * 2 ^ (k + 1)) .exact >>> k) = _
      rw [hprev]
      simp [ExtendedMantissa.shiftRightOne]

theorem shiftToTarget_scale (h : Kept m e) (k : Nat) :
    shiftToTargetExponent binary64 (m * 2 ^ k) (e - k) .exact = (⟨m, false, false⟩, e) := by
  have hk : (e - (e - k)).toNat = k := by omega
  simp only [shiftToTargetExponent, shiftToExponent, totalExponent_scale h.pos, h.target_eq, hk,
    shift_scale, Int.sub_add_cancel]

theorem roundWithAccuracy_scale (s : Sign) (h : Kept m e) (k : Nat) :
    roundWithAccuracy binary64 s (m * 2 ^ k) (e - k) .exact = .finite s m e h.pos := by
  have hlast := shiftToTarget_scale h 0
  rw [Nat.pow_zero, Nat.mul_one, Int.natCast_zero, Int.sub_zero] at hlast
  have hrounded : (⟨m, false, false⟩ : ExtendedMantissa).roundedMantissa = m := rfl
  simp only [roundWithAccuracy, shiftToTarget_scale h k, hrounded, hlast, dif_neg h.pos.ne']

theorem mul_zpow_eq {a b : ℚ} (h : a * 2 ^ E = b * 2 ^ e) (hle : E ≤ e) :
    a = b * 2 ^ (e - E).toNat := by
  have hne : (2 : ℚ) ^ E ≠ 0 := zpow_ne_zero E two_ne_zero
  have he : (2 : ℚ) ^ e = 2 ^ (e - E).toNat * 2 ^ E := by
    rw [← zpow_natCast, ← zpow_add₀ two_ne_zero]
    congr 1
    omega
  rw [he, ← mul_assoc] at h
  exact mul_right_cancel₀ hne h

/-- What a kept mantissa and exponent stand for is rounded to these. -/
theorem round_eq (s : Sign) (h : Kept m e) (hM : 0 < M) (hval : (M : ℚ) * 2 ^ E = m * 2 ^ e) :
    UnpackedFloat.round binary64 s M E = .finite s m e h.pos := by
  rcases Int.le_total E e with hle | hge
  · obtain rfl : M = m * 2 ^ (e - E).toNat := by exact_mod_cast mul_zpow_eq hval hle
    have hE : E = e - ((e - E).toNat : Int) := by omega
    have htarget : targetExponent binary64 (totalExponent (m * 2 ^ (e - E).toNat) E) = e := by
      nth_rewrite 2 [hE]
      rw [totalExponent_scale h.pos, h.target_eq]
    have hzero : (E - e).toNat = 0 := by omega
    simp only [UnpackedFloat.round, htarget, decreaseExponent, hzero]
    rw [Nat.shiftLeft_zero, Int.natCast_zero, Int.sub_zero]
    nth_rewrite 2 [hE]
    exact roundWithAccuracy_scale s h _
  · obtain rfl : m = M * 2 ^ (E - e).toNat := by exact_mod_cast mul_zpow_eq hval.symm hge
    have he : e = E - ((E - e).toNat : Int) := by omega
    have htarget : targetExponent binary64 (totalExponent M E) = e := by
      rw [← totalExponent_scale hM (E - e).toNat, ← he, h.target_eq]
    have hround := roundWithAccuracy_scale s h 0
    rw [Nat.pow_zero, Nat.mul_one, Int.natCast_zero, Int.sub_zero] at hround
    simp only [UnpackedFloat.round, htarget, decreaseExponent, Nat.shiftLeft_eq]
    rw [← he]
    exact hround

/-! ## What a number stands for -/

/-- Whether a number is in the form in which it is kept. -/
def Canonical : UnpackedFloat → Prop
  | .finite _ m e _ => Kept m e
  | _ => True

def value : UnpackedFloat → Option ℚ
  | .zero _ => some 0
  | .finite s m e _ => some (s.apply m * 2 ^ e)
  | _ => none

theorem apply_apply (s : Sign) (n : Int) : s.apply (s.apply n) = n := by
  cases s with
  | negative => exact Int.neg_neg n
  | positive => rfl

theorem cast_apply (s : Sign) (n : Int) : (s.apply n : ℚ) = s.apply 1 * n := by
  cases s with
  | negative => simp [Sign.apply]
  | positive => simp [Sign.apply]

theorem apply_mul (s : Sign) (n : Int) (q : ℚ) : (s.apply n : ℚ) * q = s.apply 1 * (n * q) := by
  rw [cast_apply, mul_assoc]

theorem normalize_apply (s z : Sign) (hM : 0 < M) :
    UnpackedFloat.normalize binary64 (s.apply M) E z = UnpackedFloat.round binary64 s M E := by
  have hpos : (0 : Int) < M := Int.natCast_pos.mpr hM
  cases s with
  | negative =>
      have hcompare : compare (-(M : Int)) 0 = .lt := Int.compare_eq_lt.mpr (by omega)
      simp only [UnpackedFloat.normalize, Sign.apply, hcompare, Int.neg_neg, Int.toNat_natCast]
  | positive =>
      have hcompare : compare (M : Int) 0 = .gt := Int.compare_eq_gt.mpr hpos
      simp only [UnpackedFloat.normalize, Sign.apply, hcompare, Int.toNat_natCast]

/-- Whatever a canonical number stands for is normalized to that number, if it is not zero. -/
theorem normalize_eq {s : Sign} {Z : Int} (z : Sign) (h : Kept m e)
    (hval : (Z : ℚ) * 2 ^ E = s.apply m * 2 ^ e) :
    UnpackedFloat.normalize binary64 Z E z = .finite s m e h.pos := by
  have hsize : (s.apply Z : ℚ) * 2 ^ E = m * 2 ^ e := by
    rw [apply_mul, hval, ← apply_mul, apply_apply, Int.cast_natCast]
  have hpos : (0 : ℚ) < s.apply Z := by
    have hm : (0 : ℚ) < m := Nat.cast_pos.mpr h.pos
    refine (mul_pos_iff_of_pos_right (zpow_pos two_pos E)).mp ?_
    rw [hsize]
    exact mul_pos hm (zpow_pos two_pos e)
  obtain ⟨n, hn⟩ := Int.eq_ofNat_of_zero_le (Int.cast_pos.mp hpos).le
  have hZ : Z = s.apply n := by rw [← hn, apply_apply]
  rw [hn, Int.cast_natCast] at hsize hpos
  rw [hZ, normalize_apply s z (Nat.cast_pos.mp hpos)]
  exact round_eq s h (Nat.cast_pos.mp hpos) hsize

/-! ## Packing -/

theorem exponentBias_eq : (binary64.exponentBias : Int) = 1023 := rfl

theorem fractionBits_eq : (binary64.mantissaBitsWithoutImplicit : Int) = 52 := rfl

theorem toNat_append_fraction (f : BitVec 52) : (1#1 ++ f).toNat = 2 ^ 52 + f.toNat := by
  rw [BitVec.toNat_append, ← Nat.shiftLeft_add_eq_or_of_lt f.isLt]
  rfl

theorem kept_unpack {b : BitVec binary64.numBits} {s : Sign} {hm : 0 < m}
    (h : UnpackedFloat.unpack binary64 b = .finite s m e hm) : Kept m e := by
  have hfraction : (UnpackedFloat.unpackMantissa b).toNat < 2 ^ 52 := BitVec.isLt _
  have hexponent : (UnpackedFloat.unpackExponent b).toNat < 2 ^ 11 := BitVec.isLt _
  rw [UnpackedFloat.unpack] at h
  simp only [exponentBias_eq] at h
  split at h
  · split at h <;> cases h
  · next hmax =>
    have hmax' : (UnpackedFloat.unpackExponent b).toNat ≠ 2047 := fun heq =>
      hmax (BitVec.eq_of_toNat_eq heq)
    split at h
    · next hzero =>
      have hzero' : (UnpackedFloat.unpackExponent b).toNat = 0 := congrArg BitVec.toNat hzero
      split at h
      · cases h
      · cases h
        constructor <;> omega
    · next hnonzero =>
      have hnonzero' : (UnpackedFloat.unpackExponent b).toNat ≠ 0 := fun heq =>
        hnonzero (BitVec.eq_of_toNat_eq heq)
      have happend := toNat_append_fraction (UnpackedFloat.unpackMantissa b)
      cases h
      constructor <;> omega

theorem unpack_full {x : BitVec 11} {f : BitVec 52} (hzero : x ≠ 0#11) (hmax : x ≠ -1#11)
    (s : Sign) {hm : 0 < m} (hf : 2 ^ 52 + f.toNat = m) (hx : (x.toNat : Int) - 1075 = e) :
    UnpackedFloat.unpack binary64 (UnpackedFloat.packComponents binary64 s x f) =
      .finite s m e hm := by
  rw [UnpackedFloat.unpack]
  simp only [UnpackedFloat.unpackExponent_packComponents,
    UnpackedFloat.unpackMantissa_packComponents, UnpackedFloat.unpackSign_packComponents,
    Sign.ofBitVec_toBitVec]
  rw [if_neg hmax, if_neg hzero, UnpackedFloat.finite.injEq]
  refine ⟨rfl, ?_, ?_⟩
  · rw [toNat_append_fraction, hf]
  · rw [exponentBias_eq, ← hx]
    omega

theorem unpack_short {f : BitVec 52} (s : Sign) {hm : 0 < m} (hf : f.toNat = m) :
    UnpackedFloat.unpack binary64 (UnpackedFloat.packComponents binary64 s 0#11 f) =
      .finite s m (-1074) hm := by
  have hne : f ≠ 0#52 := by
    rintro rfl
    exact hm.ne hf
  rw [UnpackedFloat.unpack]
  simp only [UnpackedFloat.unpackExponent_packComponents,
    UnpackedFloat.unpackMantissa_packComponents, UnpackedFloat.unpackSign_packComponents,
    Sign.ofBitVec_toBitVec]
  rw [if_neg (by decide), if_pos trivial, dif_neg hne, UnpackedFloat.finite.injEq]
  exact ⟨rfl, hf, rfl⟩

/-- What is kept can be packed and unpacked again. -/
theorem unpack_pack_finite (s : Sign) (h : Kept m e) :
    UnpackedFloat.unpack binary64 (UnpackedFloat.pack binary64 (.finite s m e h.pos)) =
      .finite s m e h.pos := by
  obtain ⟨hpos, hlt, hleast, hgreatest, hfull⟩ := h
  have hbits : binary64.mantissaBits = 53 := rfl
  have hfull_iff : m.log2 + 1 = 53 ↔ 2 ^ 52 ≤ m := by
    rw [← Nat.le_log2 hpos.ne']
    have := (Nat.log2_lt hpos.ne').mpr hlt
    omega
  have hin : ¬ 2 ^ binary64.exponentBits ≤ (e + binary64.exponentBias +
      binary64.mantissaBitsWithoutImplicit).toNat + 1 := by
    rw [exponentBias_eq, fractionBits_eq]
    show ¬ 2 ^ 11 ≤ _
    omega
  simp only [UnpackedFloat.pack, hbits]
  rw [if_neg hin, exponentBias_eq, fractionBits_eq]
  split
  · next hlog =>
    have hx : (BitVec.ofNat 11 (e + 1023 + 52).toNat).toNat = (e + 1075).toNat := by
      rw [BitVec.toNat_ofNat]
      omega
    refine unpack_full ?_ ?_ s ?_ ?_
    · intro heq
      have : (e + 1075).toNat = 0 := hx ▸ congrArg BitVec.toNat heq
      omega
    · intro heq
      have : (e + 1075).toNat = 2047 := hx ▸ congrArg BitVec.toNat heq
      omega
    · have := hfull_iff.mp hlog
      rw [BitVec.toNat_ofNat]
      omega
    · rw [hx]
      omega
  · next hlog =>
    have hshort : ¬ 2 ^ 52 ≤ m := fun hge => hlog (hfull_iff.mpr hge)
    obtain rfl : e = -1074 := by
      by_contra hne
      exact hshort (hfull (by omega))
    refine unpack_short s ?_
    rw [BitVec.toNat_ofNat]
    omega

theorem unpack_pack {u : UnpackedFloat} (h : Canonical u) :
    UnpackedFloat.unpack binary64 (UnpackedFloat.pack binary64 u) = u := by
  cases u with
  | notANumber => rfl
  | infinity s => cases s <;> rfl
  | zero s => cases s <;> rfl
  | finite s m e hm => exact unpack_pack_finite s h

theorem canonical_unpack (b : BitVec binary64.numBits) :
    Canonical (UnpackedFloat.unpack binary64 b) := by
  cases h : UnpackedFloat.unpack binary64 b with
  | notANumber => trivial
  | infinity s => trivial
  | zero s => trivial
  | finite s m e hm => exact kept_unpack h

/-! ## Sums -/

theorem apply_neg (s : Sign) (n : Int) : (-s).apply n = -s.apply n := by
  cases s with
  | negative => exact (Int.neg_neg n).symm
  | positive => rfl

theorem sub_eq (u v : UnpackedFloat) :
    UnpackedFloat.sub binary64 u v = UnpackedFloat.add binary64 u v.neg := by
  cases u with
  | finite s m e hm =>
      cases v with
      | finite t n f hn =>
          simp only [UnpackedFloat.sub, UnpackedFloat.add, UnpackedFloat.neg, apply_neg,
            Int.sub_eq_add_neg]
      | _ => rfl
  | _ => cases v <;> rfl

theorem canonical_neg {u : UnpackedFloat} (h : Canonical u) : Canonical u.neg := by
  cases u with
  | finite s m e hm => exact h
  | _ => trivial

theorem value_neg (u : UnpackedFloat) : value u.neg = (value u).map (- ·) := by
  cases u with
  | notANumber => rfl
  | infinity s => rfl
  | zero s => simp [UnpackedFloat.neg, value]
  | finite s m e hm => simp [UnpackedFloat.neg, value, apply_neg]

/-- A number in the form in which sums come out: there is one zero only. -/
def Settled (u : UnpackedFloat) : Prop := Canonical u ∧ u ≠ .zero .negative

variable {u v w : UnpackedFloat} {a b : ℚ}

theorem Settled.normalize (h : Canonical w) (hw : value w = some a) {Z : Int}
    (hZ : (Z : ℚ) * 2 ^ E = a) :
    Settled (UnpackedFloat.normalize binary64 Z E .positive) ∧
      value (UnpackedFloat.normalize binary64 Z E .positive) = some a := by
  cases w with
  | notANumber => cases hw
  | infinity s => cases hw
  | zero s =>
      obtain rfl : 0 = a := Option.some.inj hw
      obtain rfl : Z = 0 := by
        rcases mul_eq_zero.mp hZ with hzero | hzero
        · exact_mod_cast hzero
        · exact absurd hzero (zpow_ne_zero E two_ne_zero)
      exact ⟨⟨trivial, nofun⟩, rfl⟩
  | finite s m e hm =>
      rw [normalize_eq .positive h (hZ.trans (Option.some.inj hw).symm)]
      exact ⟨⟨h, nofun⟩, hw⟩

theorem aligned_eq (s : Sign) (m : Nat) (hle : E ≤ e) :
    ((s.apply (m <<< (e - E).toNat : Nat) : Int) : ℚ) * 2 ^ E = s.apply m * 2 ^ e := by
  have hm : ((m * 2 ^ (e - E).toNat : Nat) : ℚ) * 2 ^ E = m * 2 ^ e := by
    push_cast
    rw [mul_assoc, ← zpow_natCast, ← zpow_add₀ two_ne_zero]
    have hexponent : ((e - E).toNat : Int) + E = e := by omega
    rw [hexponent]
  rw [Nat.shiftLeft_eq, apply_mul, Int.cast_natCast, hm, apply_mul s m, Int.cast_natCast]

theorem Settled.add (hu : Settled u) (hv : Canonical v) (ha : value u = some a)
    (hb : value v = some b) (hw : Canonical w) (hsum : value w = some (a + b)) :
    Settled (UnpackedFloat.add binary64 u v) ∧
      value (UnpackedFloat.add binary64 u v) = some (a + b) := by
  cases u with
  | notANumber => cases ha
  | infinity s => cases ha
  | zero s =>
      obtain rfl : 0 = a := Option.some.inj ha
      obtain rfl : s = .positive := by
        cases s with
        | negative => exact absurd rfl hu.2
        | positive => rfl
      rw [zero_add]
      cases v with
      | notANumber => cases hb
      | infinity t => cases hb
      | zero t =>
          have hzero :
              UnpackedFloat.add binary64 (.zero .positive) (.zero t) = .zero .positive := by
            cases t <;> rfl
          rw [hzero]
          exact ⟨hu, hb⟩
      | finite t m e hm => exact ⟨⟨hv, nofun⟩, hb⟩
  | finite s m e hm =>
      cases v with
      | notANumber => cases hb
      | infinity t => cases hb
      | zero t =>
          obtain rfl : 0 = b := Option.some.inj hb
          rw [add_zero]
          exact ⟨hu, ha⟩
      | finite t n f hn =>
          refine Settled.normalize hw hsum ?_
          rw [Int.cast_add, add_mul, aligned_eq s m (Int.min_le_left e f),
            aligned_eq t n (Int.min_le_right e f)]
          rw [← Option.some.inj ha, ← Option.some.inj hb]

theorem Settled.sub (hu : Settled u) (hv : Canonical v) (ha : value u = some a)
    (hb : value v = some b) (hw : Canonical w) (hdiff : value w = some (a - b)) :
    Settled (UnpackedFloat.sub binary64 u v) ∧
      value (UnpackedFloat.sub binary64 u v) = some (a - b) := by
  have hneg : value v.neg = some (-b) := by rw [value_neg, hb]; rfl
  rw [sub_eq_add_neg] at hdiff ⊢
  rw [sub_eq]
  exact hu.add (canonical_neg hv) ha hneg hw hdiff

theorem apply_eq_zero {s : Sign} {n : Int} (h : s.apply n = 0) : n = 0 := by
  cases s with
  | negative => exact Int.neg_eq_zero.mp h
  | positive => exact h

theorem Settled.eq_zero_of_value (hu : Settled u) (h : value u = some 0) :
    u = .zero .positive := by
  cases u with
  | notANumber => cases h
  | infinity s => cases h
  | zero s =>
      cases s with
      | negative => exact absurd rfl hu.2
      | positive => rfl
  | finite s m e hm =>
      rcases mul_eq_zero.mp (Option.some.inj h) with hzero | hzero
      · have hm' : (m : Int) = 0 := apply_eq_zero (by exact_mod_cast hzero)
        omega
      · exact absurd hzero (zpow_ne_zero e two_ne_zero)

/-- Settled numbers with the same value are the same. -/
theorem Settled.eq_of_value (hu : Settled u) (hv : Settled v) (ha : value u = some a)
    (hva : value v = some a) : u = v := by
  by_cases hzero : a = 0
  · subst hzero
    rw [hu.eq_zero_of_value ha, hv.eq_zero_of_value hva]
  · cases u with
    | notANumber => cases ha
    | infinity s => cases ha
    | zero s => exact absurd (Option.some.inj ha).symm hzero
    | finite s m e hm =>
        cases v with
        | notANumber => cases hva
        | infinity t => cases hva
        | zero t => exact absurd (Option.some.inj hva).symm hzero
        | finite t n f hn =>
            have hsame := (Option.some.inj ha).trans (Option.some.inj hva).symm
            exact (normalize_eq .positive hu.1 rfl).symm.trans (normalize_eq .positive hv.1 hsame)

theorem exists_value_eq_int {n : Int} (h : n.natAbs < 2 ^ 53) :
    ∃ w, Canonical w ∧ value w = some (n : ℚ) := by
  rcases Nat.eq_zero_or_pos n.natAbs with hzero | hpos
  · refine ⟨.zero .positive, trivial, ?_⟩
    rw [Int.natAbs_eq_zero.mp hzero, Int.cast_zero]
    rfl
  · -- Shift the mantissa to its full length.
    obtain ⟨k, hk⟩ : ∃ k, n.natAbs.log2 + k = 52 :=
      ⟨52 - n.natAbs.log2, by have := (Nat.log2_lt hpos.ne').mpr h; omega⟩
    have hlog : (n.natAbs * 2 ^ k).log2 = 52 := (log2_scale hpos k).trans hk
    have hscaled : 0 < n.natAbs * 2 ^ k := Nat.mul_pos hpos (Nat.two_pow_pos k)
    have hkept : Kept (n.natAbs * 2 ^ k) (-(k : Int)) :=
      { pos := hscaled
        lt := (Nat.log2_lt hscaled.ne').mp (by omega)
        least_le := by omega
        le_greatest := by omega
        full := fun _ => (Nat.le_log2 hscaled.ne').mp (by omega) }
    have hvalue : ((n.natAbs * 2 ^ k : Nat) : ℚ) * 2 ^ (-(k : Int)) = n.natAbs := by
      push_cast
      rw [mul_assoc, ← zpow_natCast, ← zpow_add₀ two_ne_zero, add_neg_cancel, zpow_zero, mul_one]
    obtain ⟨s, hs⟩ : ∃ s : Sign, s.apply n.natAbs = n := by
      rcases Int.natAbs_eq n with hn | hn
      · exact ⟨.positive, hn.symm⟩
      · exact ⟨.negative, hn.symm⟩
    refine ⟨.finite s _ _ hscaled, hkept, congrArg some ?_⟩
    rw [apply_mul, Int.cast_natCast, hvalue, ← Int.cast_natCast, ← cast_apply, hs]

/-! ## Numbers that stand for nothing -/

theorem canonical_of_value_eq_none (h : value u = none) : Canonical u := by
  cases u with
  | finite s m e hm => cases h
  | _ => trivial

theorem value_add_eq_none (h : value u = none ∨ value v = none) :
    value (UnpackedFloat.add binary64 u v) = none := by
  cases u with
  | notANumber => rfl
  | infinity s =>
      cases v with
      | infinity t =>
          simp only [UnpackedFloat.add]
          split <;> rfl
      | _ => rfl
  | zero s =>
      cases v with
      | notANumber => rfl
      | infinity t => rfl
      | zero t => exact h.elim nofun nofun
      | finite t n f hn => exact h.elim nofun nofun
  | finite s m e hm =>
      cases v with
      | notANumber => rfl
      | infinity t => rfl
      | zero t => exact h.elim nofun nofun
      | finite t n f hn => exact h.elim nofun nofun

theorem value_sub_eq_none (h : value u = none ∨ value v = none) :
    value (UnpackedFloat.sub binary64 u v) = none := by
  rw [sub_eq]
  refine value_add_eq_none (h.imp_right fun hv => ?_)
  rw [value_neg, hv]
  rfl

theorem value_div_eq_none (h : value u = none) (v : UnpackedFloat) :
    value (UnpackedFloat.div binary64 u v) = none := by
  cases u with
  | notANumber => rfl
  | infinity s => cases v <;> rfl
  | zero s => cases h
  | finite s m e hm => cases h

/-! ## Floats -/

/-- The rational number that a float stands for. -/
def number (x : Float) : Option ℚ := value x.toModel.unpack

/-- Whether a float is in the form in which sums come out. -/
def IsSettled (x : Float) : Prop := ∃ u, Settled u ∧ x = .ofModel (.pack u)

variable {x y z : Float}

theorem unpack_ofModel (h : Canonical u) : (Float.ofModel (.pack u)).toModel.unpack = u :=
  unpack_pack h

theorem number_ofModel (h : Canonical u) : number (.ofModel (.pack u)) = value u :=
  congrArg value (unpack_ofModel h)

theorem isSettled_zero : IsSettled 0 := ⟨.zero .positive, ⟨trivial, nofun⟩, rfl⟩

theorem number_zero : number 0 = some 0 := number_ofModel (u := .zero .positive) trivial

/-- A sum of floats stands for the sum of what they stand for, if any float does. -/
theorem add_exact (hx : IsSettled x) (ha : number x = some a) (hb : number y = some b)
    (hz : number z = some (a + b)) : IsSettled (x + y) ∧ number (x + y) = some (a + b) := by
  obtain ⟨u, hu, rfl⟩ := hx
  rw [number_ofModel hu.1] at ha
  obtain ⟨hsettled, hvalue⟩ := hu.add (canonical_unpack _) ha hb (canonical_unpack _) hz
  have hsum : Float.ofModel (.pack u) + y =
      .ofModel (.pack (UnpackedFloat.add binary64 u y.toModel.unpack)) :=
    congrArg (fun v => Float.ofModel (.pack (UnpackedFloat.add binary64 v y.toModel.unpack)))
      (unpack_ofModel hu.1)
  rw [hsum]
  exact ⟨⟨_, hsettled, rfl⟩, (number_ofModel hsettled.1).trans hvalue⟩

theorem sub_exact (hx : IsSettled x) (ha : number x = some a) (hb : number y = some b)
    (hz : number z = some (a - b)) : IsSettled (x - y) ∧ number (x - y) = some (a - b) := by
  obtain ⟨u, hu, rfl⟩ := hx
  rw [number_ofModel hu.1] at ha
  obtain ⟨hsettled, hvalue⟩ := hu.sub (canonical_unpack _) ha hb (canonical_unpack _) hz
  have hdiff : Float.ofModel (.pack u) - y =
      .ofModel (.pack (UnpackedFloat.sub binary64 u y.toModel.unpack)) :=
    congrArg (fun v => Float.ofModel (.pack (UnpackedFloat.sub binary64 v y.toModel.unpack)))
      (unpack_ofModel hu.1)
  rw [hdiff]
  exact ⟨⟨_, hsettled, rfl⟩, (number_ofModel hsettled.1).trans hvalue⟩

theorem IsSettled.eq_of_number (hx : IsSettled x) (hy : IsSettled y) (ha : number x = some a)
    (hb : number y = some a) : x = y := by
  obtain ⟨u, hu, rfl⟩ := hx
  obtain ⟨v, hv, rfl⟩ := hy
  rw [number_ofModel hu.1] at ha
  rw [number_ofModel hv.1] at hb
  rw [hu.eq_of_value hv ha hb]

theorem number_add_eq_none (h : number x = none ∨ number y = none) : number (x + y) = none := by
  have hvalue := value_add_eq_none h
  exact (number_ofModel (canonical_of_value_eq_none hvalue)).trans hvalue

theorem number_sub_eq_none (h : number x = none ∨ number y = none) : number (x - y) = none := by
  have hvalue := value_sub_eq_none h
  exact (number_ofModel (canonical_of_value_eq_none hvalue)).trans hvalue

theorem number_div_eq_none (h : number x = none) (y : Float) : number (x / y) = none := by
  have hvalue := value_div_eq_none h y.toModel.unpack
  exact (number_ofModel (canonical_of_value_eq_none hvalue)).trans hvalue

/-- Integers of at most 53 bits are among the numbers that floats stand for. -/
theorem exists_number_eq_int {n : Int} (h : n.natAbs < 2 ^ 53) : ∃ z, number z = some (n : ℚ) := by
  obtain ⟨w, hw, hn⟩ := exists_value_eq_int h
  exact ⟨.ofModel (.pack w), (number_ofModel hw).trans hn⟩

end Binary64

end WindowedStats
