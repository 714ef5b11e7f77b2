import Mathlib

/-!
Formats of floats: a float of a format is packed as the bits that it has been
unpacked from, and a float that is rounded to a wider format and back is the float
itself.
-/

namespace BpClient.Lib

open Float.Model (Format UnpackedFloat totalExponent)
open Float.Model.UnpackedFloat

/-- The mantissa has the exponent that the format gives it. -/
def Canonical (fmt : Format) (m : Nat) (e : Int) : Prop :=
  fmt.targetExponent (totalExponent m e) = e

/-- A finite number with the exponent is not too large for the format. -/
def InRange (fmt : Format) (e : Int) : Prop :=
  e + fmt.exponentBias + fmt.mantissaBitsWithoutImplicit + 1 < 2 ^ fmt.exponentBits

section Format

variable (fmt : Format)

theorem two_pow_exponentBits : 2 ^ fmt.exponentBits = 2 * fmt.exponentBias + 2 := by
  have hpos : 1 ≤ 2 ^ (fmt.exponentBits - 1) := Nat.one_le_two_pow
  have hsplit : 2 ^ fmt.exponentBits = 2 * 2 ^ (fmt.exponentBits - 1) := by
    rw [← Nat.pow_succ', Nat.succ_eq_add_one, Nat.sub_add_cancel fmt.he]
  rw [hsplit, Format.exponentBias]
  omega

theorem minExponent_eq :
    fmt.minExponent = 1 - fmt.exponentBias - fmt.mantissaBitsWithoutImplicit := by
  have hpos : 1 ≤ 2 ^ (fmt.exponentBits - 1) := Nat.one_le_two_pow
  rw [Format.minExponent, Format.exponentBias, Format.mantissaBits, Nat.cast_sub hpos]
  push_cast
  ring

theorem inRange_iff (e : Int) :
    InRange fmt e ↔ e ≤ (fmt.exponentBias : Int) - fmt.mantissaBitsWithoutImplicit := by
  have hpow : (2 ^ fmt.exponentBits : Int) = 2 * fmt.exponentBias + 2 :=
    mod_cast two_pow_exponentBits fmt
  rw [InRange, hpow]
  omega

/-- What it means for a mantissa to have its exponent. -/
theorem canonical_iff {m : Nat} (hm : 0 < m) (e : Int) :
    Canonical fmt m e ↔ m < 2 ^ (fmt.mantissaBitsWithoutImplicit + 1) ∧ fmt.minExponent ≤ e ∧
      (2 ^ fmt.mantissaBitsWithoutImplicit ≤ m ∨ e = fmt.minExponent) := by
  rw [← Nat.log2_lt hm.ne', ← Nat.le_log2 hm.ne', Canonical, Format.targetExponent, totalExponent,
    Format.mantissaBits]
  omega

end Format

section Pack

variable {fmt : Format}

theorem toBitVec_ofBitVec (v : BitVec 1) : (Sign.ofBitVec v).toBitVec = v := by
  revert v
  decide

theorem ofBitVec_toBitVec (s : Sign) : Sign.ofBitVec s.toBitVec = s := by
  cases s <;> rfl

/-- The three parts of a float are all of its bits. -/
theorem packComponents_unpack (b : BitVec fmt.numBits) :
    packComponents fmt (Sign.ofBitVec (unpackSign b)) (unpackExponent b) (unpackMantissa b) = b := by
  rw [packComponents, toBitVec_ofBitVec]
  ext i hi
  have hbits : fmt.numBits = 1 + fmt.exponentBits + fmt.mantissaBitsWithoutImplicit := rfl
  have hm := fmt.hm
  have he := fmt.he
  rw [← BitVec.getLsbD_eq_getElem, ← BitVec.getLsbD_eq_getElem]
  simp only [unpackSign, unpackExponent, unpackMantissa, BitVec.getLsbD_append, BitVec.getLsbD_cast,
    BitVec.getLsbD_extractLsb]
  split
  · next hlow =>
      simp only [Nat.zero_add, Bool.and_eq_right_iff_imp, decide_eq_true_eq]
      omega
  · next hhigh =>
      have hexp : fmt.mantissaBitsWithoutImplicit + (i - fmt.mantissaBitsWithoutImplicit) = i := by
        omega
      split
      · rw [hexp, Bool.and_eq_right_iff_imp, decide_eq_true_eq]
        omega
      · next hsign =>
          have htop : fmt.mantissaBitsWithoutImplicit + fmt.exponentBits +
              (i - fmt.mantissaBitsWithoutImplicit - fmt.exponentBits) = i := by
            omega
          rw [htop, Bool.and_eq_right_iff_imp, decide_eq_true_eq]
          omega

theorem unpackSign_packComponents (s : Sign) (e : BitVec fmt.exponentBits)
    (m : BitVec fmt.mantissaBitsWithoutImplicit) :
    unpackSign (packComponents fmt s e m) = s.toBitVec := by
  ext i hi
  obtain rfl : i = 0 := Nat.lt_one_iff.mp hi
  simp [unpackSign, packComponents, BitVec.getLsbD_append, BitVec.getElem_append]

theorem toNat_implicit {n : Nat} (m : BitVec n) : (1#1 ++ m).toNat = 2 ^ n + m.toNat := by
  rw [BitVec.toNat_append, ← Nat.shiftLeft_add_eq_or_of_lt m.isLt, Nat.shiftLeft_eq]
  simp

theorem ofNat_implicit {n : Nat} (m : BitVec n) : BitVec.ofNat n (2 ^ n + m.toNat) = m := by
  apply BitVec.eq_of_toNat_eq
  rw [BitVec.toNat_ofNat, Nat.add_mod_left, Nat.mod_eq_of_lt m.isLt]

/-- The exponent of infinities and NaNs is the greatest. -/
theorem toNat_neg_one (n : Nat) : (-BitVec.ofNat n 1).toNat = 2 ^ n - 1 := by
  rw [BitVec.neg_one_eq_allOnes, BitVec.toNat_allOnes]

theorem neg_one_ne_zero : -BitVec.ofNat fmt.exponentBits 1 ≠ 0#_ := by
  intro h
  have hnat := congrArg BitVec.toNat h
  have hpow := two_pow_exponentBits fmt
  rw [toNat_neg_one, BitVec.toNat_zero] at hnat
  omega

theorem one_le_bias (hbits : 1 < fmt.exponentBits) : 1 ≤ fmt.exponentBias := by
  have hpow := two_pow_exponentBits fmt
  have hfour : 2 ^ 2 ≤ 2 ^ fmt.exponentBits := Nat.pow_le_pow_right Nat.two_pos hbits
  omega

theorem pack_subnormal (hbits : 1 < fmt.exponentBits) (s : Sign) {m : Nat} (hm : 0 < m)
    (hlt : m < 2 ^ fmt.mantissaBitsWithoutImplicit) :
    pack fmt (.finite s m fmt.minExponent hm) = packComponents fmt s 0#_ (BitVec.ofNat _ m) := by
  have hpow := two_pow_exponentBits fmt
  have hbias := one_le_bias hbits
  have hlog := (Nat.log2_lt hm.ne').mpr hlt
  have hbiased : (fmt.minExponent + fmt.exponentBias + fmt.mantissaBitsWithoutImplicit).toNat = 1 := by
    rw [minExponent_eq]
    omega
  simp only [pack, hbiased]
  rw [if_neg (by omega), if_neg (by rw [Format.mantissaBits]; omega)]

theorem pack_normal (s : Sign) {m : Nat} (biased : Nat) (hm : 0 < m)
    (hle : 2 ^ fmt.mantissaBitsWithoutImplicit ≤ m)
    (hlt : m < 2 ^ (fmt.mantissaBitsWithoutImplicit + 1))
    (hrange : biased + 1 < 2 ^ fmt.exponentBits) {e : Int}
    (he : e = biased - (fmt.exponentBias + fmt.mantissaBitsWithoutImplicit)) :
    pack fmt (.finite s m e hm) =
      packComponents fmt s (BitVec.ofNat _ biased) (BitVec.ofNat _ m) := by
  have hlow := (Nat.le_log2 hm.ne').mpr hle
  have hhigh := (Nat.log2_lt hm.ne').mpr hlt
  have hbiased : (e + fmt.exponentBias + fmt.mantissaBitsWithoutImplicit).toNat = biased := by
    omega
  simp only [pack, hbiased]
  rw [if_neg (by omega), if_pos (by rw [Format.mantissaBits]; omega)]

/-- A finite float. -/
theorem unpack_finite (hbits : 1 < fmt.exponentBits) {b : BitVec fmt.numBits} {s : Sign} {m : Nat}
    {e : Int} {hm : 0 < m} (h : unpack fmt b = .finite s m e hm) :
    Canonical fmt m e ∧ InRange fmt e ∧ pack fmt (.finite s m e hm) = b := by
  have hmin := minExponent_eq fmt
  have hpow := two_pow_exponentBits fmt
  have hbias := one_le_bias hbits
  have hmant : (unpackMantissa b).toNat < 2 ^ fmt.mantissaBitsWithoutImplicit :=
    (unpackMantissa b).isLt
  have hexp : (unpackExponent b).toNat < 2 ^ fmt.exponentBits := (unpackExponent b).isLt
  have hparts := packComponents_unpack b
  rw [unpack] at h
  split at h
  · split at h <;> cases h
  · next htop =>
      split at h
      · next hzero =>
          split at h
          · cases h
          · next hne =>
              -- subnormal
              simp only [UnpackedFloat.finite.injEq] at h
              obtain ⟨rfl, rfl, rfl⟩ := h
              have he : ((unpackExponent b).toNat : Int) -
                  (fmt.exponentBias + fmt.mantissaBitsWithoutImplicit) + 1 = fmt.minExponent := by
                rw [hzero, hmin, BitVec.toNat_zero]
                omega
              rw [he, canonical_iff fmt hm, inRange_iff, pack_subnormal hbits _ hm hmant,
                BitVec.ofNat_toNat, BitVec.setWidth_eq, ← hzero]
              refine ⟨⟨?_, le_rfl, .inr rfl⟩, ?_, hparts⟩
              · rw [Nat.pow_succ]
                omega
              · omega
      · next hnonzero =>
          -- normal
          simp only [UnpackedFloat.finite.injEq] at h
          obtain ⟨rfl, rfl, rfl⟩ := h
          have hone : 1 ≤ (unpackExponent b).toNat := by
            apply Nat.one_le_iff_ne_zero.mpr
            exact fun h => hnonzero (BitVec.eq_of_toNat_eq h)
          have htop' : (unpackExponent b).toNat ≠ 2 ^ fmt.exponentBits - 1 := by
            rw [← toNat_neg_one]
            exact fun h => htop (BitVec.eq_of_toNat_eq h)
          have hm' := toNat_implicit (unpackMantissa b)
          have hdouble : 2 ^ (fmt.mantissaBitsWithoutImplicit + 1) =
              2 ^ fmt.mantissaBitsWithoutImplicit * 2 := Nat.pow_succ _ _
          rw [canonical_iff fmt hm, inRange_iff, pack_normal _ (unpackExponent b).toNat hm (by omega)
            (by omega) (by omega) rfl]
          refine ⟨⟨by omega, by omega, .inl (by omega)⟩, by omega, ?_⟩
          rw [hm', ofNat_implicit, BitVec.ofNat_toNat, BitVec.setWidth_eq]
          exact hparts

/-- What is no NaN is packed as the bits that it has been unpacked from. -/
theorem pack_unpack (hbits : 1 < fmt.exponentBits) {b : BitVec fmt.numBits}
    (hnan : unpack fmt b ≠ .notANumber) : pack fmt (unpack fmt b) = b := by
  have hparts := packComponents_unpack b
  cases h : unpack fmt b with
  | notANumber => exact absurd h hnan
  | finite s m e hm => exact (unpack_finite hbits h).2.2
  | infinity s =>
      rw [unpack] at h
      split at h
      · next htop =>
          split at h
          · next hzero =>
              cases h
              rw [pack, packedInfinity]
              rw [htop, hzero] at hparts
              exact hparts
          · cases h
      · split at h
        · split at h <;> cases h
        · cases h
  | zero s =>
      rw [unpack] at h
      split at h
      · split at h <;> cases h
      · split at h
        · next hexp =>
            split at h
            · next hzero =>
                cases h
                rw [pack, packedZero]
                rw [hexp, hzero] at hparts
                exact hparts
            · cases h
        · cases h

theorem unpack_packedInfinity (s : Sign) : unpack fmt (packedInfinity fmt s) = .infinity s := by
  simp [unpack, packedInfinity]

theorem unpack_packedZero (s : Sign) : unpack fmt (packedZero fmt s) = .zero s := by
  simp [unpack, packedZero, neg_one_ne_zero.symm]

/-- A finite float of the format is unpacked as it has been packed. -/
theorem unpack_pack_finite (hbits : 1 < fmt.exponentBits) (s : Sign) {m : Nat} {e : Int}
    (hm : 0 < m) (hcanon : Canonical fmt m e) (hrange : InRange fmt e) :
    unpack fmt (pack fmt (.finite s m e hm)) = .finite s m e hm := by
  have hmin := minExponent_eq fmt
  have hpow := two_pow_exponentBits fmt
  have hbias := one_le_bias hbits
  obtain ⟨hlt, hle, hnormal⟩ := (canonical_iff fmt hm e).mp hcanon
  rw [inRange_iff] at hrange
  by_cases hsub : m < 2 ^ fmt.mantissaBitsWithoutImplicit
  · obtain rfl : e = fmt.minExponent := hnormal.resolve_left (Nat.not_le_of_lt hsub)
    have hmant : (BitVec.ofNat fmt.mantissaBitsWithoutImplicit m).toNat = m := by
      rw [BitVec.toNat_ofNat, Nat.mod_eq_of_lt hsub]
    have hne : BitVec.ofNat fmt.mantissaBitsWithoutImplicit m ≠ 0#_ := by
      intro h
      have hzero := congrArg BitVec.toNat h
      rw [hmant, BitVec.toNat_zero] at hzero
      exact hm.ne' hzero
    rw [pack_subnormal hbits s hm hsub, unpack]
    simp only [unpackMantissa_packComponents, unpackExponent_packComponents,
      unpackSign_packComponents, ofBitVec_toBitVec, neg_one_ne_zero.symm, if_false, if_true, hne,
      dif_neg, not_false_eq_true, hmant, UnpackedFloat.finite.injEq, BitVec.toNat_zero, true_and]
    omega
  · obtain ⟨biased, hbiased⟩ : ∃ biased : Nat,
        e = biased - (fmt.exponentBias + fmt.mantissaBitsWithoutImplicit) :=
      ⟨(e + fmt.exponentBias + fmt.mantissaBitsWithoutImplicit).toNat, by omega⟩
    have hdouble : 2 ^ (fmt.mantissaBitsWithoutImplicit + 1) =
        2 ^ fmt.mantissaBitsWithoutImplicit * 2 := Nat.pow_succ _ _
    have hexp : (BitVec.ofNat fmt.exponentBits biased).toNat = biased := by
      rw [BitVec.toNat_ofNat, Nat.mod_eq_of_lt (by omega)]
    have hmant : (1#1 ++ BitVec.ofNat fmt.mantissaBitsWithoutImplicit m).toNat = m := by
      have hmod : m % 2 ^ fmt.mantissaBitsWithoutImplicit =
          m - 2 ^ fmt.mantissaBitsWithoutImplicit := by
        rw [Nat.mod_eq_sub_mod (by omega), Nat.mod_eq_of_lt (by omega)]
      rw [toNat_implicit, BitVec.toNat_ofNat, hmod]
      omega
    have htop : BitVec.ofNat fmt.exponentBits biased ≠ -1#_ := by
      intro h
      have hnat := congrArg BitVec.toNat h
      rw [hexp, toNat_neg_one] at hnat
      omega
    have hne : BitVec.ofNat fmt.exponentBits biased ≠ 0#_ := by
      intro h
      have hnat := congrArg BitVec.toNat h
      rw [hexp, BitVec.toNat_zero] at hnat
      omega
    rw [pack_normal s biased hm (by omega) hlt (by omega) hbiased, unpack]
    simp only [unpackMantissa_packComponents, unpackExponent_packComponents,
      unpackSign_packComponents, ofBitVec_toBitVec, htop, hne, if_false, hmant, hexp, hbiased]

end Pack

section Round

variable {fmt : Format}

/-- Bits that are zero are shifted out. -/
theorem shiftRight_exact (m k : Nat) :
    ((⟨m * 2 ^ k, false, false⟩ : ExtendedMantissa) >>> k) = ⟨m, false, false⟩ := by
  induction k generalizing m with
  | zero => simp [HShiftRight.hShiftRight, Nat.repeat]
  | succ k ih =>
      have hstep : ((⟨m * 2 ^ (k + 1), false, false⟩ : ExtendedMantissa) >>> (k + 1)) =
          ((⟨m * 2 * 2 ^ k, false, false⟩ : ExtendedMantissa) >>> k).shiftRightOne := by
        rw [Nat.pow_succ', ← Nat.mul_assoc]
        rfl
      rw [hstep, ih (m * 2)]
      simp [ExtendedMantissa.shiftRightOne]

theorem log2_shift {m : Nat} (hm : 0 < m) (k : Nat) : (m * 2 ^ k).log2 = m.log2 + k := by
  induction k with
  | zero => simp
  | succ k ih =>
      have hne : m * 2 ^ k ≠ 0 := (Nat.mul_pos hm (Nat.two_pow_pos k)).ne'
      rw [Nat.pow_succ', Nat.mul_left_comm, Nat.log2_two_mul hne, ih, Nat.add_assoc]

theorem totalExponent_shift {m : Nat} (hm : 0 < m) (k : Nat) (e : Int) :
    totalExponent (m * 2 ^ k) (e - k) = totalExponent m e := by
  rw [totalExponent, totalExponent, log2_shift hm]
  push_cast
  ring

theorem shiftToTargetExponent_exact {m : Nat} (hm : 0 < m) {e : Int} (hcanon : Canonical fmt m e)
    (k : Nat) : shiftToTargetExponent fmt (m * 2 ^ k) (e - k) .exact = (⟨m, false, false⟩, e) := by
  have hamount : (e - (e - k)).toNat = k := by omega
  rw [shiftToTargetExponent, totalExponent_shift hm]
  simp only [shiftToExponent, show fmt.targetExponent (totalExponent m e) = e from hcanon, hamount,
    ExtendedMantissa.ofMantissaAndAccuracy, shiftRight_exact]
  simp

theorem roundWithAccuracy_exact (s : Sign) {m : Nat} (hm : 0 < m) {e : Int}
    (hcanon : Canonical fmt m e) (k : Nat) :
    roundWithAccuracy fmt s (m * 2 ^ k) (e - k) .exact = .finite s m e hm := by
  have hagain : shiftToTargetExponent fmt m e .exact = (⟨m, false, false⟩, e) := by
    have hzero := shiftToTargetExponent_exact hm hcanon 0
    rwa [Nat.pow_zero, Nat.mul_one, Nat.cast_zero, Int.sub_zero] at hzero
  have hrounded : (⟨m, false, false⟩ : ExtendedMantissa).roundedMantissa = m := rfl
  rw [roundWithAccuracy, shiftToTargetExponent_exact hm hcanon k]
  simp only [hrounded, hagain, hm.ne', dif_neg, not_false_eq_true]

/-- A float of the format whose mantissa has been given more digits is rounded to the
float itself. -/
theorem round_exact (s : Sign) {m : Nat} (hm : 0 < m) {e : Int} (hcanon : Canonical fmt m e)
    (k : Nat) : UnpackedFloat.round fmt s (m * 2 ^ k) (e - k) = .finite s m e hm := by
  have htarget : fmt.targetExponent (totalExponent (m * 2 ^ k) (e - k)) = e := by
    rw [totalExponent_shift hm]
    exact hcanon
  have hdecrease : decreaseExponent (m * 2 ^ k) (e - k) e = (m * 2 ^ k, e - k) := by
    simp [decreaseExponent]
  rw [UnpackedFloat.round, htarget, hdecrease]
  exact roundWithAccuracy_exact s hm hcanon k

/-- Each finite float of the one format is a finite float of the other. -/
structure Wider (src dst : Format) : Prop where
  mantissa : src.mantissaBitsWithoutImplicit ≤ dst.mantissaBitsWithoutImplicit
  exponent : src.exponentBits ≤ dst.exponentBits
  one_lt : 1 < src.exponentBits

variable {src dst : Format}

theorem Wider.bias_le (h : Wider src dst) : src.exponentBias ≤ dst.exponentBias := by
  have hpow : 2 ^ src.exponentBits ≤ 2 ^ dst.exponentBits :=
    Nat.pow_le_pow_right Nat.two_pos h.exponent
  rw [two_pow_exponentBits, two_pow_exponentBits] at hpow
  omega

/-- Rounding to a wider format gives the mantissa more digits. -/
theorem Wider.round_eq (h : Wider src dst) (s : Sign) {m : Nat} (hm : 0 < m) {e : Int}
    (hcanon : Canonical src m e) (hrange : InRange src e) :
    ∃ (k : Nat) (hpos : 0 < m * 2 ^ k), UnpackedFloat.round dst s m e = .finite s (m * 2 ^ k) (e - k) hpos ∧
      Canonical dst (m * 2 ^ k) (e - k) ∧ InRange dst (e - k) := by
  have hbias := h.bias_le
  have hone := one_le_bias h.one_lt
  have hmantissa := h.mantissa
  have hsrc := hcanon
  rw [Canonical, Format.targetExponent, Format.mantissaBits, minExponent_eq] at hsrc
  rw [inRange_iff] at hrange
  obtain ⟨target, htarget⟩ : ∃ target, dst.targetExponent (totalExponent m e) = target := ⟨_, rfl⟩
  have hdst := htarget
  rw [Format.targetExponent, Format.mantissaBits, minExponent_eq] at hdst
  obtain ⟨k, hk⟩ : ∃ k : Nat, target = e - k := ⟨(e - target).toNat, by omega⟩
  have hpos : 0 < m * 2 ^ k := Nat.mul_pos hm (Nat.two_pow_pos k)
  have hcanon' : Canonical dst (m * 2 ^ k) (e - k) := by
    rw [Canonical, totalExponent_shift hm, htarget, hk]
  refine ⟨k, hpos, ?_, hcanon', ?_⟩
  · have hdecrease : decreaseExponent m e target = (m * 2 ^ k, e - k) := by
      have hamount : (e - target).toNat = k := by omega
      simp [decreaseExponent, hamount, Nat.shiftLeft_eq]
    have hround := roundWithAccuracy_exact s hpos hcanon' 0
    rw [Nat.pow_zero, Nat.mul_one, Nat.cast_zero, Int.sub_zero] at hround
    rw [UnpackedFloat.round, htarget, hdecrease]
    exact hround
  · rw [inRange_iff]
    omega

end Round

end BpClient.Lib
