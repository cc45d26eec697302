import Tilewalk.Proofs.Number.Order
import Tilewalk.Proofs.Number.Whole

/-! The real numbers that 32-bit numbers stand for. A mantissa of at most 24 bits is scaled by a power of
two; every such real number has one shape, in which the mantissa is as long as the format lets it be, so
that exponents and then mantissas decide the order. -/

set_option autoImplicit false

namespace Tilewalk.Binary32

open Float.Model (Format UnpackedFloat)
open Float.Model.UnpackedFloat

/-- The mantissa is as long as it can be: it fills its 24 bits unless the exponent is the least. -/
structure Canonical (m : Nat) (e : Int) : Prop where
  pos : 0 < m
  upper : m < 2 ^ 24
  least : -149 ≤ e
  normal : 2 ^ 23 ≤ m ∨ e = -149

instance (m : Nat) (e : Int) : Decidable (Canonical m e) :=
  decidable_of_iff (0 < m ∧ m < 2 ^ 24 ∧ -149 ≤ e ∧ (2 ^ 23 ≤ m ∨ e = -149))
    ⟨fun ⟨pos, upper, least, normal⟩ => ⟨pos, upper, least, normal⟩,
      fun shape => ⟨shape.pos, shape.upper, shape.least, shape.normal⟩⟩

variable {m m₁ m₂ : Nat} {e e₁ e₂ : Int} {s : Sign} {x y : Float32} {a b : UnpackedFloat}
  {v w : ℝ}

/-- What is not infinite stands for a real number. -/
inductive Stands : UnpackedFloat → ℝ → Prop where
  | zero (s : Sign) : Stands (.zero s) 0
  | finite (s : Sign) {m : Nat} {e : Int} (shape : Canonical m e) :
      Stands (.finite s m e shape.pos) (s.apply m * 2 ^ e)

/-- A 32-bit number stands for a real one. -/
def HasValue (x : Float32) (v : ℝ) : Prop := Stands x.toModel.unpack v

/-! ## The order -/

theorem Canonical.lt_of_exponent (low : Canonical m₁ e₁) (high : Canonical m₂ e₂) (less : e₁ < e₂) :
    (m₁ * 2 ^ e₁ : ℝ) < m₂ * 2 ^ e₂ := by
  have full : 2 ^ 23 ≤ m₂ := by
    rcases high.normal with full | least
    · exact full
    · have := low.least
      omega
  have short : (m₁ : ℝ) < 2 ^ 24 := by exact_mod_cast low.upper
  have long : (2 ^ 23 : ℝ) ≤ m₂ := by exact_mod_cast full
  calc (m₁ * 2 ^ e₁ : ℝ) < 2 ^ 24 * 2 ^ e₁ := by gcongr
    _ = 2 ^ 23 * 2 ^ (e₁ + 1) := by rw [zpow_add₀ two_ne_zero]; ring
    _ ≤ 2 ^ 23 * 2 ^ e₂ := by gcongr; exacts [one_le_two, less]
    _ ≤ m₂ * 2 ^ e₂ := by gcongr

theorem Canonical.compares (left : Canonical m₁ e₁) (right : Canonical m₂ e₂) :
    ((compare e₁ e₂).then (compare m₁ m₂)).Compares (m₁ * 2 ^ e₁ : ℝ) (m₂ * 2 ^ e₂) := by
  rcases lt_trichotomy e₁ e₂ with less | rfl | more
  · rw [compare_lt_iff_lt.mpr less]
    exact left.lt_of_exponent right less
  · have scale : (0 : ℝ) < 2 ^ e₁ := by positivity
    rw [compare_eq_iff_eq.mpr rfl]
    rcases lt_trichotomy m₁ m₂ with less | rfl | more
    · rw [compare_lt_iff_lt.mpr less]
      have shorter : (m₁ : ℝ) < m₂ := by exact_mod_cast less
      exact mul_lt_mul_of_pos_right shorter scale
    · rw [compare_eq_iff_eq.mpr rfl]
      exact rfl
    · rw [compare_gt_iff_gt.mpr more]
      have longer : (m₂ : ℝ) < m₁ := by exact_mod_cast more
      exact mul_lt_mul_of_pos_right longer scale
  · rw [compare_gt_iff_gt.mpr more]
    exact right.lt_of_exponent left more

theorem Canonical.magnitude_pos (shape : Canonical m e) : (0 : ℝ) < m * 2 ^ e := by
  have pos : (0 : ℝ) < m := by exact_mod_cast shape.pos
  positivity

theorem apply_negative (m : Nat) (e : Int) :
    ((Sign.negative.apply m : Int) : ℝ) * 2 ^ e = -(m * 2 ^ e) := by
  simp [Sign.apply]

theorem apply_positive (m : Nat) (e : Int) :
    ((Sign.positive.apply m : Int) : ℝ) * 2 ^ e = m * 2 ^ e := by
  simp [Sign.apply]

theorem apply_eq_mul (s : Sign) (n : Nat) : ((s.apply n : Int) : ℝ) = s.apply 1 * n := by
  cases s <;> simp [Sign.apply]

theorem abs_apply_one_mul (s : Sign) (x : ℝ) : |((s.apply 1 : Int) : ℝ) * x| = |x| := by
  cases s <;> simp [Sign.apply]

theorem compares_neg {o : Ordering} (compares : o.Compares v w) : o.swap.Compares (-v) (-w) := by
  cases o with
  | lt => exact neg_lt_neg compares
  | eq => exact congrArg Neg.neg compares
  | gt => exact neg_lt_neg compares

theorem Stands.compares (left : Stands a v) (right : Stands b w) :
    ∃ o, a.compare b = some o ∧ o.Compares v w := by
  cases left with
  | zero s => cases right with
    | zero t => exact ⟨.eq, rfl, rfl⟩
    | finite t shape =>
      have pos := shape.magnitude_pos
      cases t with
      | negative =>
        rw [apply_negative]
        exact ⟨.gt, rfl, neg_lt_zero.mpr pos⟩
      | positive =>
        rw [apply_positive]
        exact ⟨.lt, rfl, pos⟩
  | @finite s m e shape =>
    have pos := shape.magnitude_pos
    cases right with
    | zero t => cases s with
      | negative =>
        rw [apply_negative]
        exact ⟨.lt, rfl, neg_lt_zero.mpr pos⟩
      | positive =>
        rw [apply_positive]
        exact ⟨.gt, rfl, pos⟩
    | @finite t m' e' shape' =>
      have pos' := shape'.magnitude_pos
      cases s with
      | negative => cases t with
        | negative =>
          rw [apply_negative, apply_negative]
          exact ⟨_, rfl, compares_neg (shape.compares shape')⟩
        | positive =>
          rw [apply_negative, apply_positive]
          exact ⟨.lt, rfl, (neg_lt_zero.mpr pos).trans pos'⟩
      | positive => cases t with
        | negative =>
          rw [apply_negative, apply_positive]
          exact ⟨.gt, rfl, (neg_lt_zero.mpr pos').trans pos⟩
        | positive =>
          rw [apply_positive, apply_positive]
          exact ⟨_, rfl, shape.compares shape'⟩

theorem HasValue.lt_iff (left : HasValue x v) (right : HasValue y w) : x < y ↔ v < w := by
  obtain ⟨o, compared, compares⟩ := Stands.compares left right
  rw [lt_iff_compare, compared, ← compares.eq_lt, Option.some.injEq]

theorem Stands.number (stands : Stands a v) : a ≠ .notANumber := by
  cases stands <;> exact fun same => by cases same

theorem HasValue.number (value : HasValue x v) : x.isNaN = false :=
  isNaN_eq_false_iff.mpr (Stands.number value)

theorem HasValue.isFinite (value : HasValue x v) : x.isFinite = true := by
  have reduced : x.isFinite = x.toModel.unpack.isFinite := rfl
  rw [reduced]
  unfold HasValue at value
  generalize x.toModel.unpack = u at value
  cases value <;> rfl

theorem HasValue.le_iff (left : HasValue x v) (right : HasValue y w) : x ≤ y ↔ v ≤ w := by
  constructor
  · intro atMost
    rw [← not_lt, ← right.lt_iff left]
    exact fun less => not_le_of_lt less atMost
  · intro atMost
    refine le_of_not_lt right.number left.number ?_
    rw [right.lt_iff left]
    exact not_lt.mpr atMost

theorem HasValue.eq (first : HasValue x v) (second : HasValue x w) : v = w :=
  le_antisymm ((first.le_iff second).mp (le_self first.number))
    ((second.le_iff first).mp (le_self first.number))

theorem Stands.inj (left : Stands a v) (right : Stands b v) (nonzero : v ≠ 0) : a = b := by
  obtain ⟨o, compared, compares⟩ := left.compares right
  obtain rfl : o = .eq := compares.eq_eq.mpr rfl
  cases left with
  | zero s => exact absurd rfl nonzero
  | @finite s m₁ e₁ shape₁ =>
    generalize same : (s.apply m₁ * 2 ^ e₁ : ℝ) = v at right
    cases right with
    | zero t => exact absurd same nonzero
    | @finite t m₂ e₂ shape₂ =>
      have agree (order : (compare e₁ e₂).then (compare m₁ m₂) = .eq) : e₁ = e₂ ∧ m₁ = m₂ := by
        rw [Ordering.then_eq_eq] at order
        exact ⟨compare_eq_iff_eq.mp order.1, compare_eq_iff_eq.mp order.2⟩
      cases s <;> cases t
      · obtain ⟨rfl, rfl⟩ := agree (Ordering.swap_eq_eq.mp (Option.some.inj compared))
        rfl
      · cases compared
      · cases compared
      · obtain ⟨rfl, rfl⟩ := agree (Option.some.inj compared)
        rfl

theorem HasValue.inj (left : HasValue x v) (right : HasValue y v) (nonzero : v ≠ 0) : x = y := by
  have same := Stands.inj left right nonzero
  rw [← ofModel_pack_unpack x, same, ofModel_pack_unpack]

theorem hasValue_of_unpack (shape : Canonical m e)
    (unpacked : x.toModel.unpack = .finite .positive m e shape.pos) (size : (m * 2 ^ e : ℝ) = v) :
    HasValue x v := by
  rw [HasValue, unpacked, ← size, ← apply_positive]
  exact .finite .positive shape

/-! ## Packing -/

@[simp] theorem unpack_pack_infinity (s : Sign) :
    (Float32.Model.pack (.infinity s)).unpack = .infinity s := by
  cases s <;> rfl

theorem unpack_pack_short (s : Sign) (pos : 0 < m) (short : m < 2 ^ 23) :
    (Float32.Model.pack (.finite s m (-149) pos)).unpack = .finite s m (-149) pos := by
  have bits : (BitVec.ofNat 23 m).toNat = m := by
    rw [BitVec.toNat_ofNat, Nat.mod_eq_of_lt short]
  have nonzero : BitVec.ofNat 23 m ≠ 0#23 := by
    intro zero
    have same := congrArg BitVec.toNat zero
    rw [bits] at same
    exact Nat.ne_of_gt pos same
  have subnormal : ¬ m.log2 + 1 = Format.binary32.mantissaBits := by
    have small := (Nat.log2_lt (Nat.ne_of_gt pos)).mpr short
    change ¬ m.log2 + 1 = 24
    omega
  have packed : pack Format.binary32 (.finite s m (-149) pos)
      = packComponents Format.binary32 s 0#8 (BitVec.ofNat 23 m) := by
    simp only [pack]
    rw [if_neg (by decide), if_neg subnormal]
  change unpack Format.binary32 (pack Format.binary32 _) = _
  rw [packed]
  simp only [unpack, unpackMantissa_packComponents, unpackExponent_packComponents,
    unpackSign_packComponents, Sign.ofBitVec_toBitVec]
  simp [nonzero, bits]
  rfl

theorem unpack_pack_overflow (s : Sign) (pos : 0 < m) (large : 104 < e) :
    (Float32.Model.pack (.finite s m e pos)).unpack = .infinity s := by
  have bounded : 2 ^ Format.binary32.exponentBits ≤ (e + Format.binary32.exponentBias
      + Format.binary32.mantissaBitsWithoutImplicit).toNat + 1 := by
    change 256 ≤ (e + 127 + 23).toNat + 1
    omega
  have packed : pack Format.binary32 (.finite s m e pos) = packedInfinity Format.binary32 s :=
    if_pos bounded
  have infinite := unpack_pack_infinity s
  change unpack Format.binary32 (pack Format.binary32 _) = _
  rw [packed]
  exact infinite

theorem toNat_implicit (mantissa : BitVec 23) :
    (1#1 ++ mantissa).toNat = 2 ^ 23 + mantissa.toNat := by
  rw [BitVec.toNat_append, Nat.shiftLeft_eq, Nat.or_comm, BitVec.toNat_ofNat]
  exact (Nat.or_two_pow_eq_add_of_lt mantissa.isLt).trans (Nat.add_comm _ _)

theorem canonical_of_unpack {pos : 0 < m} (unpacked : x.toModel.unpack = .finite s m e pos) :
    Canonical m e ∧ e ≤ 104 := by
  have opened : x.toModel.unpack = unpack Format.binary32 x.toModel.toBits.toBitVec := rfl
  rw [opened] at unpacked
  generalize exponentOf : @unpackExponent Format.binary32 x.toModel.toBits.toBitVec = exponent
    at unpacked
  generalize mantissaOf : @unpackMantissa Format.binary32 x.toModel.toBits.toBitVec = mantissa
    at unpacked
  simp only [unpack, exponentOf, mantissaOf] at unpacked
  have bias : (Format.binary32.exponentBias : Int) + (23 : Nat) = 150 := rfl
  have below : mantissa.toNat < 2 ^ 23 := mantissa.isLt
  rw [bias] at unpacked
  split at unpacked
  · split at unpacked <;> cases unpacked
  · next ordinary =>
    split at unpacked
    · next subnormal =>
      split at unpacked
      · cases unpacked
      · cases unpacked
        have least : exponent.toNat = 0 := congrArg BitVec.toNat subnormal
        rw [least]
        exact ⟨⟨pos, by omega, by omega, .inr rfl⟩, by omega⟩
    · next normal =>
      cases unpacked
      have most : exponent.toNat ≤ 254 := by bv_omega
      have least : 1 ≤ exponent.toNat := by bv_omega
      have digits := toNat_implicit mantissa
      exact ⟨⟨pos, by omega, by omega, .inl (by omega)⟩, by omega⟩
theorem Canonical.unpack_pack (shape : Canonical m e) (s : Sign) (most : e ≤ 104) :
    (Float32.Model.pack (.finite s m e shape.pos)).unpack = .finite s m e shape.pos := by
  by_cases full : 2 ^ 23 ≤ m
  · exact unpack_pack_full s ⟨full, shape.upper⟩ shape.least most
  · obtain rfl : e = -149 := shape.normal.resolve_left full
    exact unpack_pack_short s shape.pos (Nat.lt_of_not_le full)

theorem exists_value_or_infinite (number : x.isNaN = false) :
    (∃ v, HasValue x v) ∨ ∃ s, x.toModel.unpack = .infinity s := by
  rw [isNaN_eq_false_iff] at number
  cases unpacked : x.toModel.unpack with
  | notANumber => exact absurd unpacked number
  | infinity s => exact .inr ⟨s, rfl⟩
  | zero s =>
    refine .inl ⟨0, ?_⟩
    rw [HasValue, unpacked]
    exact .zero s
  | finite s m e pos =>
    refine .inl ⟨s.apply m * 2 ^ e, ?_⟩
    rw [HasValue, unpacked]
    exact .finite s (canonical_of_unpack unpacked).1

theorem HasValue.exists_scaled (value : HasValue x v) :
    ∃ k e : Int, |k| < 2 ^ 24 ∧ -149 ≤ e ∧ e ≤ 104 ∧ v = k * 2 ^ e := by
  unfold HasValue at value
  generalize unpacked : x.toModel.unpack = u at value
  cases value with
  | zero s => exact ⟨0, 0, by decide, by decide, by decide, by simp⟩
  | @finite s m e shape =>
    have bits := shape.upper
    refine ⟨s.apply m, e, ?_, shape.least, (canonical_of_unpack unpacked).2, rfl⟩
    cases s <;> simp [Sign.apply] <;> omega

theorem HasValue.abs_lt (value : HasValue x v) : |v| < 2 ^ 128 := by
  obtain ⟨k, e, bits, -, most, rfl⟩ := value.exists_scaled
  have short : |(k : ℝ)| < 2 ^ 24 := by exact_mod_cast bits
  have scale : (0 : ℝ) < 2 ^ e := by positivity
  calc |(k : ℝ) * 2 ^ e| = |(k : ℝ)| * 2 ^ e := by rw [abs_mul, abs_of_pos scale]
    _ < 2 ^ 24 * 2 ^ e := by gcongr
    _ ≤ 2 ^ 24 * 2 ^ (104 : Int) := by gcongr; exact one_le_two
    _ = 2 ^ 128 := by norm_num

theorem Canonical.hasValue_pack (shape : Canonical m e) (s : Sign) (most : e ≤ 104) :
    HasValue (.ofModel (.pack (.finite s m e shape.pos))) (s.apply m * 2 ^ e) := by
  have same : (Float32.ofModel (.pack (.finite s m e shape.pos))).toModel.unpack
      = .finite s m e shape.pos := shape.unpack_pack s most
  rw [HasValue, same]
  exact .finite s shape

/-- A real number in the shape of the format is packed into a number that stands for it, or it is too
large and becomes infinite with its sign. -/
theorem Stands.pack_cases (stands : Stands a v) :
    HasValue (.ofModel (.pack a)) v ∨
    (Float32.Model.pack a).unpack = .infinity .positive ∧ 2 ^ 128 ≤ v ∨
    (Float32.Model.pack a).unpack = .infinity .negative ∧ v ≤ -2 ^ 128 := by
  cases stands with
  | zero s =>
    have value : HasValue (.ofModel (.pack (.zero s))) 0 := by
      have same : (Float32.ofModel (.pack (.zero s))).toModel.unpack = .zero s := unpack_pack_zero s
      rw [HasValue, same]
      exact .zero s
    exact .inl value
  | @finite s m e shape =>
    by_cases most : e ≤ 104
    · exact .inl (shape.hasValue_pack s most)
    · have past : 105 ≤ e := by omega
      have infinite := unpack_pack_overflow s shape.pos (Int.lt_of_not_ge most)
      have full : (2 ^ 23 : ℝ) ≤ m := by
        have bits : 2 ^ 23 ≤ m := shape.normal.resolve_right (by omega)
        exact_mod_cast bits
      have large : (2 ^ 128 : ℝ) ≤ m * 2 ^ e := by
        calc (2 ^ 128 : ℝ) = 2 ^ 23 * 2 ^ (105 : Int) := by norm_num
          _ ≤ 2 ^ 23 * 2 ^ e := by gcongr; exact one_le_two
          _ ≤ m * 2 ^ e := by gcongr
      cases s with
      | positive =>
        rw [apply_positive]
        exact .inr (.inl ⟨infinite, large⟩)
      | negative =>
        rw [apply_negative]
        exact .inr (.inr ⟨infinite, neg_le_neg large⟩)

theorem HasValue.lt_infinity (value : HasValue x v)
    (infinite : y.toModel.unpack = .infinity .positive) : x < y := by
  rw [lt_iff_compare, infinite]
  unfold HasValue at value
  generalize x.toModel.unpack = u at value
  cases value with
  | zero s => rfl
  | finite s shape => cases s <;> rfl

theorem HasValue.infinity_lt (value : HasValue x v)
    (infinite : y.toModel.unpack = .infinity .negative) : y < x := by
  rw [lt_iff_compare, infinite]
  unfold HasValue at value
  generalize x.toModel.unpack = u at value
  cases value with
  | zero s => rfl
  | finite s shape => cases s <;> rfl

theorem HasValue.le_of_le {z : Float32} (left : HasValue x v) (right : HasValue y w) (less : v ≤ w)
    (below : y ≤ z) : x ≤ z := by
  rcases exists_value_or_infinite (numbers_of_le below).2 with ⟨u, value⟩ | ⟨s, infinite⟩
  · exact (left.le_iff value).mpr (less.trans ((right.le_iff value).mp below))
  · cases s with
    | positive => exact le_of_lt (left.lt_infinity infinite)
    | negative => exact absurd below (not_le_of_lt (right.infinity_lt infinite))

end Tilewalk.Binary32
