import Tilewalk.Proofs.Number.Sum

/-! Whole numbers of less than 24 bits are 32-bit numbers: they are converted without rounding, a
multiplication by one keeps them, and the nearest integer to one is the number itself. -/

set_option autoImplicit false

namespace Tilewalk.Binary32

open Float.Model (Format UnpackedFloat totalExponent)
open Float.Model.UnpackedFloat

structure Full (m : Nat) : Prop where
  lower : 2 ^ 23 ≤ m
  upper : m < 2 ^ 24

variable {m k : Nat} {e : Int}

theorem Full.pos (full : Full m) : 0 < m :=
  Nat.lt_of_lt_of_le (Nat.two_pow_pos 23) full.lower

theorem Full.log2_eq (full : Full m) : m.log2 = 23 :=
  (Nat.log2_eq_iff (Nat.ne_of_gt full.pos)).mpr ⟨full.lower, full.upper⟩

theorem Full.targetExponent_eq (full : Full m) (least : -149 ≤ e) :
    Format.binary32.targetExponent (totalExponent m e) = e := by
  simp only [Format.targetExponent, totalExponent, full.log2_eq, Format.mantissaBits,
    Format.minExponent]
  omega

theorem exists_full (pos : 0 < m) (small : m < 2 ^ 24) : ∃ k ≤ 23, Full (m * 2 ^ k) := by
  have lower : 2 ^ m.log2 ≤ m := Nat.log2_self_le (Nat.ne_of_gt pos)
  have upper : m < 2 ^ (m.log2 + 1) := Nat.lt_log2_self
  have bound : m.log2 < 24 := (Nat.log2_lt (Nat.ne_of_gt pos)).mpr small
  have full : m.log2 + (23 - m.log2) = 23 := by omega
  have past : m.log2 + 1 + (23 - m.log2) = 24 := by omega
  -- The leading bit is shifted up to the last place that there is.
  refine ⟨23 - m.log2, Nat.sub_le 23 _, ?_, ?_⟩
  · have scaled := Nat.mul_le_mul_right (2 ^ (23 - m.log2)) lower
    rwa [← Nat.pow_add, full] at scaled
  · have scaled := Nat.mul_lt_mul_of_pos_right upper (Nat.two_pow_pos (23 - m.log2))
    rwa [← Nat.pow_add, past] at scaled

theorem totalExponent_scaled (pos : 0 < m) (k : Nat) (e : Int) :
    totalExponent (m * 2 ^ k) (e - k) = totalExponent m e := by
  have digits : (m * 2 ^ k).log2 = m.log2 + k := by
    induction k with
    | zero => simp
    | succ k ih =>
      have scaled : m * 2 ^ k ≠ 0 := Nat.ne_of_gt (Nat.mul_pos pos (Nat.two_pow_pos k))
      rw [Nat.pow_succ, ← Nat.mul_assoc, Nat.mul_comm _ 2, Nat.log2_two_mul scaled, ih]
      omega
  simp only [totalExponent, digits]
  omega

theorem shiftRight_scaled (m k : Nat) :
    ExtendedMantissa.ofMantissaAndAccuracy (m * 2 ^ k) .exact >>> k
      = ExtendedMantissa.ofMantissaAndAccuracy m .exact := by
  induction k generalizing m with
  | zero =>
    rw [Nat.pow_zero, Nat.mul_one]
    rfl
  | succ k ih =>
    -- The last of the shifts is the outermost.
    have last : ExtendedMantissa.ofMantissaAndAccuracy (m * 2 ^ (k + 1)) .exact >>> (k + 1)
        = (ExtendedMantissa.ofMantissaAndAccuracy (2 * m * 2 ^ k) .exact >>> k).shiftRightOne := by
      have same : m * 2 ^ (k + 1) = 2 * m * 2 ^ k := by
        rw [Nat.pow_succ, Nat.mul_comm 2 m, Nat.mul_assoc, Nat.mul_comm 2]
      rw [same]
      rfl
    rw [last, ih]
    simp [ExtendedMantissa.shiftRightOne, ExtendedMantissa.ofMantissaAndAccuracy]

/-- A number that fits the format is kept by rounding, also when it is written with more digits. -/
theorem roundWithAccuracy_scaled (s : Sign) (pos : 0 < m)
    (fits : Format.binary32.targetExponent (totalExponent m e) = e) (k : Nat) :
    roundWithAccuracy Format.binary32 s (m * 2 ^ k) (e - k) .exact = .finite s m e pos := by
  have first : shiftToTargetExponent Format.binary32 (m * 2 ^ k) (e - k) .exact
      = (ExtendedMantissa.ofMantissaAndAccuracy m .exact, e) := by
    have amount : (e - (e - k)).toNat = k := by omega
    have reached : e - k + (k : Int) = e := by omega
    simp only [shiftToTargetExponent, totalExponent_scaled pos, fits, shiftToExponent, amount,
      shiftRight_scaled, reached]
  have second : shiftToTargetExponent Format.binary32 m e .exact
      = (ExtendedMantissa.ofMantissaAndAccuracy m .exact, e) := by
    have still (em : ExtendedMantissa) : em >>> 0 = em := rfl
    simp [shiftToTargetExponent, fits, shiftToExponent, still]
  have whole : (ExtendedMantissa.ofMantissaAndAccuracy m .exact).roundedMantissa = m := rfl
  simp only [roundWithAccuracy, first, whole, second]
  simp [ExtendedMantissa.ofMantissaAndAccuracy, Nat.ne_of_gt pos]

theorem round_whole (s : Sign) (full : Full (m * 2 ^ k)) (short : k ≤ 23) :
    UnpackedFloat.round Format.binary32 s m 0 = .finite s (m * 2 ^ k) (-k) full.pos := by
  have pos : 0 < m := Nat.pos_of_mul_pos_right full.pos
  have fits := full.targetExponent_eq (e := -k) (by omega)
  have target : Format.binary32.targetExponent (totalExponent m 0) = -k := by
    rw [← totalExponent_scaled pos k 0, Int.zero_sub, fits]
  have kept := roundWithAccuracy_scaled s full.pos fits 0
  simp only [UnpackedFloat.round, target, decreaseExponent, Nat.shiftLeft_eq]
  simpa using kept

theorem unpack_pack_full (s : Sign) (full : Full m) (least : -149 ≤ e) (most : e ≤ 104) :
    (Float32.Model.pack (.finite s m e full.pos)).unpack = .finite s m e full.pos := by
  have biased : (e + Format.binary32.exponentBias + Format.binary32.mantissaBitsWithoutImplicit)
      = e + 150 := by
    change e + 127 + 23 = e + 150
    omega
  have bounded : ¬ 2 ^ Format.binary32.exponentBits ≤ (e + 150).toNat + 1 := by
    change ¬ 256 ≤ (e + 150).toNat + 1
    omega
  have exponent : (BitVec.ofNat 8 (e + 150).toNat).toNat = (e + 150).toNat := by
    rw [BitVec.toNat_ofNat]
    omega
  have ordinary : BitVec.ofNat 8 (e + 150).toNat ≠ 255#8 := by
    intro top
    have same := congrArg BitVec.toNat top
    rw [exponent, BitVec.toNat_ofNat] at same
    omega
  have normal : BitVec.ofNat 8 (e + 150).toNat ≠ 0#8 := by
    intro bottom
    have same := congrArg BitVec.toNat bottom
    rw [exponent, BitVec.toNat_ofNat] at same
    omega
  -- The implicit bit is put back in front of the other 23.
  have mantissa : (1#1 ++ BitVec.ofNat 23 m).toNat = m := by
    have below : m % 2 ^ 23 < 2 ^ 23 := Nat.mod_lt m (Nat.two_pow_pos 23)
    have lower := full.lower
    have upper := full.upper
    simp only [BitVec.toNat_append, BitVec.toNat_ofNat, Nat.shiftLeft_eq]
    change 2 ^ 23 ||| m % 2 ^ 23 = m
    rw [Nat.or_comm, Nat.or_two_pow_eq_add_of_lt below]
    omega
  have packed : pack Format.binary32 (.finite s m e full.pos) = packComponents Format.binary32 s
      (BitVec.ofNat 8 (e + 150).toNat) (BitVec.ofNat 23 m) := by
    simp only [pack, biased, if_neg bounded, full.log2_eq]
    exact if_pos rfl
  have back : max (e + 150) 0 - (Format.binary32.exponentBias + 23) = e := by
    change max (e + 150) 0 - (127 + 23) = e
    omega
  change unpack Format.binary32 (pack Format.binary32 _) = _
  rw [packed]
  simp only [unpack, unpackMantissa_packComponents, unpackExponent_packComponents,
    unpackSign_packComponents, Sign.ofBitVec_toBitVec]
  simp [ordinary, normal, exponent, mantissa, back]

/-- The number stands for a whole one of less than 24 bits. -/
inductive IsWhole (x : Float32) : Int → Prop where
  | zero : x.toModel.unpack = .zero .positive → IsWhole x 0
  | finite {s : Sign} {m k : Nat} (full : Full (m * 2 ^ k)) : k ≤ 23 →
      x.toModel.unpack = .finite s (m * 2 ^ k) (-k) full.pos → IsWhole x (s.apply m)

theorem ofInt_apply (s : Sign) (pos : 0 < m) :
    ofInt (s.apply m) = .ofModel (.pack (UnpackedFloat.round Format.binary32 s m 0)) := by
  have converted : ofInt (s.apply m)
      = .ofModel (.pack (UnpackedFloat.normalize Format.binary32 (s.apply m) 0 .positive)) := rfl
  rw [converted]
  cases s with
  | negative =>
    have below : Sign.negative.apply m < 0 := Int.neg_neg_of_pos (Int.natCast_pos.mpr pos)
    have size : (-Sign.negative.apply m).toNat = m := by simp [Sign.apply]
    rw [UnpackedFloat.normalize, Int.compare_eq_lt.mpr below, size]
  | positive =>
    have above : 0 < Sign.positive.apply m := Int.natCast_pos.mpr pos
    have size : (Sign.positive.apply m).toNat = m := Int.toNat_natCast m
    rw [UnpackedFloat.normalize, Int.compare_eq_gt.mpr above, size]

theorem isWhole_signed (s : Sign) (pos : 0 < m) (small : m < 2 ^ 24) :
    IsWhole (ofInt (s.apply m)) (s.apply m) := by
  obtain ⟨k, short, full⟩ := exists_full pos small
  rw [ofInt_apply s pos, round_whole s full short]
  exact .finite full short (unpack_pack_full s full (by omega) (by omega))

theorem isWhole_ofInt {n : Int} (small : n.natAbs < 2 ^ 24) : IsWhole (ofInt n) n := by
  rcases Int.lt_trichotomy n 0 with below | rfl | above
  · have size : Sign.negative.apply n.natAbs = n := by rw [Sign.apply]; omega
    exact size ▸ isWhole_signed .negative (by omega) small
  · exact .zero rfl
  · have size : Sign.positive.apply n.natAbs = n := by rw [Sign.apply]; omega
    exact size ▸ isWhole_signed .positive (by omega) small

theorem IsWhole.mul_one {x : Float32} {n : Int} (whole : IsWhole x n) : x * 1 = x := by
  have product : x * 1
      = .ofModel (.pack (mul Format.binary32 x.toModel.unpack (1 : Float32).toModel.unpack)) := rfl
  have one : (1 : Float32).toModel.unpack = .finite .positive (2 ^ 23) (-23) (by decide) := rfl
  have same : mul Format.binary32 x.toModel.unpack (1 : Float32).toModel.unpack
      = x.toModel.unpack := by
    rw [one]
    cases whole with
    | zero unpacked =>
      rw [unpacked]
      rfl
    | @finite s m k full short unpacked =>
      have sign : s * .positive = s := by cases s <;> rfl
      have fits := full.targetExponent_eq (e := -k) (by omega)
      have kept := roundWithAccuracy_scaled s full.pos fits 23
      rw [unpacked, mul, sign]
      exact kept
  rw [product, same]
  exact ofModel_pack_unpack x

theorem IsWhole.add_zero {x : Float32} {n : Int} (whole : IsWhole x n) : x + 0 = x := by
  have zero : (0 : Float32).toModel.unpack = .zero .positive := rfl
  have same : add Format.binary32 x.toModel.unpack (.zero .positive) = x.toModel.unpack := by
    cases whole with
    | zero unpacked =>
      rw [unpacked]
      rfl
    | finite full short unpacked =>
      rw [unpacked]
      rfl
  rw [add_eq_pack, zero, same]
  exact ofModel_pack_unpack x

theorem roundHalfUp_scaled (m k : Nat) : roundHalfUp (m * 2 ^ k) (-k) = m := by
  have amount : (- -(k : Int)).toNat = k := by omega
  have up : (-(k : Int)).toNat = 0 := by omega
  rw [roundHalfUp, amount]
  split
  · next none => rw [up, none, Nat.shiftLeft_zero, Nat.pow_zero, Nat.mul_one]
  · have twice : 2 * (m * 2 ^ k) + 1 <<< k = (2 * m + 1) * 2 ^ k := by
      rw [Nat.shiftLeft_eq, Nat.add_mul, Nat.mul_assoc]
    have half : (2 * m + 1) / 2 = m := by omega
    rw [twice, Nat.shiftRight_eq_div_pow, Nat.pow_succ, Nat.mul_comm (2 ^ k) 2,
      Nat.mul_div_mul_right _ _ (Nat.two_pow_pos k), half]

theorem IsWhole.nearest {x : Float32} {n : Int} (whole : IsWhole x n) :
    nearestInt32 x = .ofIntClamp n := by
  rw [nearestInt32]
  cases whole with
  | zero unpacked =>
    rw [unpacked]
    rfl
  | @finite s m k full short unpacked =>
    rw [unpacked, roundUnpacked, roundHalfUp_scaled]

end Tilewalk.Binary32
