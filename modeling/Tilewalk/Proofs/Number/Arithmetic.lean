import Tilewalk.Proofs.Number.Mantissa

/-! The operations on 32-bit numbers: each gives what the exact result is rounded to. Quotients and roots are
computed as whole numbers with enough digits, and the remainder decides the residual bits. -/

set_option autoImplicit false

namespace Tilewalk.Binary32

open Float.Model (Format UnpackedFloat totalExponent)
open Float.Model.UnpackedFloat

variable {m m₁ m₂ : Nat} {e e₁ e₂ : Int} {x y : Float32} {a b : UnpackedFloat} {v w : ℝ}

/-! ## Sums -/

theorem decreaseExponent_value (m : Nat) (e t : Int) :
    ((decreaseExponent m e t).1 * 2 ^ (decreaseExponent m e t).2 : ℝ) = m * 2 ^ e := by
  simp only [decreaseExponent, Nat.shiftLeft_eq]
  rw [zpow_sub₀ two_ne_zero, zpow_natCast]
  push_cast
  field_simp

theorem ready_decreaseExponent (pos : 0 < m) (e : Int) :
    Ready (decreaseExponent m e (lastPlace m e)).1 (decreaseExponent m e (lastPlace m e)).2 := by
  have log := Nat.log2_self_le (Nat.ne_of_gt pos)
  simp only [decreaseExponent, Nat.shiftLeft_eq, lastPlace_eq]
  generalize shift : (e - max (m.log2 + 1 + e - 24) (-149)).toNat = k
  rcases le_or_gt (e - k) (-149) with low | high
  · exact .inr low
  · refine .inl ?_
    calc 2 ^ 23 ≤ 2 ^ (m.log2 + k) := Nat.pow_le_pow_right two_pos (by omega)
      _ = 2 ^ m.log2 * 2 ^ k := pow_add 2 _ _
      _ ≤ m * 2 ^ k := Nat.mul_le_mul_right _ log

theorem rounds_round (pos : 0 < m) (s : Sign) (e : Int) :
    Rounds (s.apply 1 * (m * 2 ^ e)) (.ofModel (.pack (round Format.binary32 s m e))) := by
  rw [← decreaseExponent_value m e (lastPlace m e)]
  exact rounds_roundWithAccuracy (ready_decreaseExponent pos e) (.exact _) s

theorem rounds_normalize (k e : Int) (s : Sign) :
    Rounds (k * 2 ^ e) (.ofModel (.pack (UnpackedFloat.normalize Format.binary32 k e s))) := by
  rcases Int.lt_trichotomy k 0 with below | rfl | above
  · have size : (((-k).toNat : Nat) : ℝ) = -k := by
      rw [← Int.cast_natCast, Int.toNat_of_nonneg (by omega), Int.cast_neg]
    have rounds := rounds_round (m := (-k).toNat) (by omega) .negative e
    rw [size] at rounds
    rw [UnpackedFloat.normalize, Int.compare_eq_lt.mpr below]
    convert rounds using 1
    simp [Sign.apply]
  · have zero := (Stands.zero s).rounds
    simpa [UnpackedFloat.normalize] using zero
  · have size : ((k.toNat : Nat) : ℝ) = k := by
      rw [← Int.cast_natCast, Int.toNat_of_nonneg (by omega)]
    have rounds := rounds_round (m := k.toNat) (by omega) .positive e
    rw [size] at rounds
    rw [UnpackedFloat.normalize, Int.compare_eq_gt.mpr above]
    convert rounds using 1
    simp [Sign.apply]

theorem Stands.add (left : Stands a v) (right : Stands b w) :
    Rounds (v + w) (.ofModel (.pack (UnpackedFloat.add Format.binary32 a b))) := by
  cases left with
  | zero s =>
    rw [zero_add]
    cases right with
    | zero t => cases s <;> cases t <;> exact (Stands.zero _).rounds
    | finite t shape => exact (Stands.finite t shape).rounds
  | @finite s m₁ e₁ shape₁ => cases right with
    | zero t =>
      rw [add_zero]
      exact (Stands.finite s shape₁).rounds
    | @finite t m₂ e₂ shape₂ =>
      -- Both are written with the smaller exponent and added as integers.
      have aligned (s : Sign) {m : Nat} {e t : Int} (low : t ≤ e) :
          ((s.apply (decreaseExponent m e t).1 : Int) : ℝ) * 2 ^ t = s.apply m * 2 ^ e := by
        have value := decreaseExponent_value m e t
        have reached : (decreaseExponent m e t).2 = t := by
          simp only [decreaseExponent]
          omega
        rw [reached] at value
        rw [apply_eq_mul, mul_assoc, value, ← mul_assoc, ← apply_eq_mul]
      have sum : (s.apply m₁ * 2 ^ e₁ + t.apply m₂ * 2 ^ e₂ : ℝ)
          = ((s.apply (decreaseExponent m₁ e₁ (min e₁ e₂)).1
            + t.apply (decreaseExponent m₂ e₂ (min e₁ e₂)).1 : Int) : ℝ) * 2 ^ (min e₁ e₂) := by
        rw [Int.cast_add, add_mul, aligned s (min_le_left e₁ e₂), aligned t (min_le_right e₁ e₂)]
      rw [sum]
      exact rounds_normalize _ _ _

theorem HasValue.add (left : HasValue x v) (right : HasValue y w) : Rounds (v + w) (x + y) :=
  Stands.add left right

theorem rounds_toFloat32 (n : UInt64) : Rounds n.toNat n.toFloat32 := by
  have rounds := rounds_normalize n.toNat 0 .positive
  rw [zpow_zero, mul_one, Int.cast_natCast] at rounds
  exact rounds

/-! ## Differences -/

@[simp] theorem apply_neg (s : Sign) (n : Int) : (-s).apply n = -s.apply n := by
  cases s with
  | negative => exact (Int.neg_neg n).symm
  | positive => rfl

theorem Stands.neg (stands : Stands a v) : Stands a.neg (-v) := by
  cases stands with
  | zero s =>
    rw [neg_zero]
    exact .zero (-s)
  | finite s shape =>
    rw [← neg_mul, ← Int.cast_neg, ← apply_neg]
    exact .finite (-s) shape

theorem HasValue.neg (value : HasValue x v) : HasValue (-x) (-v) := by
  have low := neg_lt_of_abs_lt value.abs_lt
  have high := lt_of_abs_lt value.abs_lt
  rcases (Stands.neg value).pack_cases with finite | ⟨-, large⟩ | ⟨-, large⟩
  · exact finite
  · linarith
  · linarith

theorem sub_eq_add_neg_unpacked (f : Format) (a b : UnpackedFloat) :
    UnpackedFloat.sub f a b = UnpackedFloat.add f a b.neg := by
  cases a with
  | notANumber => rfl
  | infinity s => cases b <;> rfl
  | zero s => cases b <;> rfl
  | finite s m₁ e₁ => cases b with
    -- The definitions differ in two finite numbers only: there the integers are subtracted.
    | finite t m₂ e₂ =>
      simp only [UnpackedFloat.sub, UnpackedFloat.add, UnpackedFloat.neg, apply_neg, Int.sub_eq_add_neg]
    | _ => rfl

theorem HasValue.sub (left : HasValue x v) (right : HasValue y w) : Rounds (v - w) (x - y) := by
  have difference : x - y = .ofModel (.pack (UnpackedFloat.add Format.binary32 x.toModel.unpack
      y.toModel.unpack.neg)) :=
    congrArg (fun u => Float32.ofModel (.pack u)) (sub_eq_add_neg_unpacked _ _ _)
  rw [difference, sub_eq_add_neg]
  exact Stands.add left (Stands.neg right)

/-! ## Products -/

theorem ready_mul (left : Canonical m₁ e₁) (right : Canonical m₂ e₂) :
    Ready (m₁ * m₂) (e₁ + e₂) := by
  rcases left.normal with full | least
  · exact .inl (full.trans (Nat.le_mul_of_pos_right m₁ right.pos))
  · rcases right.normal with full | least'
    · exact .inl (full.trans (Nat.le_mul_of_pos_left m₂ left.pos))
    · exact .inr (by omega)

theorem apply_one_mul (s t : Sign) : (s * t).apply 1 = s.apply 1 * t.apply 1 := by
  cases s <;> cases t <;> rfl

theorem Stands.mul (left : Stands a v) (right : Stands b w) :
    Rounds (v * w) (.ofModel (.pack (UnpackedFloat.mul Format.binary32 a b))) := by
  cases left with
  | zero s =>
    rw [zero_mul]
    cases right <;> exact (Stands.zero _).rounds
  | @finite s m₁ e₁ shape₁ => cases right with
    | zero t =>
      rw [mul_zero]
      exact (Stands.zero _).rounds
    | @finite t m₂ e₂ shape₂ =>
      -- The mantissas are multiplied exactly and rounded once.
      have product : (s.apply m₁ * 2 ^ e₁ * (t.apply m₂ * 2 ^ e₂) : ℝ)
          = (s * t).apply 1 * ((m₁ * m₂ : Nat) * 2 ^ (e₁ + e₂)) := by
        have signs : (((s * t).apply 1 : Int) : ℝ) = s.apply 1 * t.apply 1 := by
          exact_mod_cast apply_one_mul s t
        rw [signs, apply_eq_mul s, apply_eq_mul t, zpow_add₀ two_ne_zero]
        push_cast
        ring
      rw [product]
      exact rounds_roundWithAccuracy (ready_mul shape₁ shape₂) (.exact _) _

theorem HasValue.mul (left : HasValue x v) (right : HasValue y w) : Rounds (v * w) (x * y) :=
  Stands.mul left right

theorem HasValue.mul_le_mul {z : Float32} {u p q : ℝ} (factor : HasValue z u) (nonneg : 0 ≤ u)
    (left : HasValue x v) (right : HasValue y w) (less : v ≤ w) (first : HasValue (z * x) p)
    (second : HasValue (z * y) q) : p ≤ q := by
  rcases (mul_le_mul_of_nonneg_left less nonneg).lt_or_eq with strict | equal
  · exact (factor.mul left).le_of_lt (factor.mul right) first second strict
  · by_cases zero : u * v = 0
    · -- Both are rounded from zero.
      have low := (factor.mul right).ge_of_le hasValue_zero (equal ▸ zero).ge
      have high := (factor.mul left).le_of_ge hasValue_zero zero.le
      exact ((first.le_iff hasValue_zero).mp high).trans ((hasValue_zero.le_iff second).mp low)
    · have positive : u ≠ 0 := left_ne_zero_of_mul zero
      have same : v = w := mul_left_cancel₀ positive equal
      obtain rfl : x = y := left.inj (same ▸ right) (right_ne_zero_of_mul zero)
      exact (first.eq second).le

/-! ## Quotients -/

/-- A remainder says where the quotient is between two whole numbers. -/
theorem encodes_div (n : Nat) {d : Nat} (pos : 0 < d) :
    Encodes (.ofMantissaAndAccuracy (n / d) (accuracyOfFraction (n % d) d)) (n / d : ℝ) := by
  have scale : (0 : ℝ) < d := by exact_mod_cast pos
  have below : ((n % d : Nat) : ℝ) < d := by exact_mod_cast Nat.mod_lt n pos
  have split : (n / d : ℝ) = (n / d : Nat) + (n % d : Nat) / d := by
    have digits : (d : ℝ) * (n / d : Nat) + (n % d : Nat) = n := by
      exact_mod_cast Nat.div_add_mod n d
    field_simp
    linarith
  rw [split]
  generalize n % d = rest at below
  generalize n / d = q
  unfold accuracyOfFraction
  split
  · next none =>
    rw [none, Nat.cast_zero, zero_div, add_zero]
    exact .exact q
  · next some =>
    have positive : (0 : ℝ) < rest / d := by
      have atLeast : (0 : ℝ) < rest := by exact_mod_cast Nat.pos_of_ne_zero some
      positivity
    -- Twice the remainder is compared with the divisor, as the fraction is with a half.
    rcases lt_trichotomy (2 * rest) d with less | half | more
    · rw [compare_lt_iff_lt.mpr less]
      have twice : (2 * rest : ℝ) < d := by exact_mod_cast less
      have part : (rest / d : ℝ) < 1 / 2 := by
        rw [div_lt_iff₀ scale]
        linarith
      exact .belowHalf (by linarith) (by linarith)
    · rw [compare_eq_iff_eq.mpr half]
      have twice : (2 * rest : ℝ) = d := by exact_mod_cast half
      have part : (rest / d : ℝ) = 1 / 2 := by
        rw [div_eq_iff scale.ne']
        linarith
      rw [part]
      exact .half q
    · rw [compare_gt_iff_gt.mpr more]
      have twice : (d : ℝ) < 2 * rest := by exact_mod_cast more
      have part : 1 / 2 < (rest / d : ℝ) := by
        rw [lt_div_iff₀ scale]
        linarith
      have whole : (rest / d : ℝ) < 1 := by
        rw [div_lt_one scale]
        exact below
      exact .aboveHalf (by linarith) (by linarith)

theorem ready_div (pos₁ : 0 < m₁) (pos₂ : 0 < m₂) (e₁ e₂ : Int) :
    Ready (divCore Format.binary32 m₁ e₁ m₂ e₂).1 (divCore Format.binary32 m₁ e₁ m₂ e₂).2.1 := by
  -- The dividend is shifted so far that even against the longest divisor 24 digits are left.
  have low := Nat.log2_self_le (Nat.ne_of_gt pos₁)
  have high : m₂ < 2 ^ (m₂.log2 + 1) := Nat.lt_log2_self
  have place : Format.binary32.targetExponent (totalExponent m₁ e₁ - totalExponent m₂ e₂)
      = max (m₁.log2 + 1 + e₁ - (m₂.log2 + 1 + e₂) - 24) (-149) := rfl
  simp only [divCore, Nat.shiftLeft_eq, place]
  generalize target : min (e₁ - e₂) (max (m₁.log2 + 1 + e₁ - (m₂.log2 + 1 + e₂) - 24) (-149)) = t
  rcases le_or_gt t (-149) with least | above
  · exact .inr least
  · refine .inl ((Nat.le_div_iff_mul_le pos₂).mpr ?_)
    generalize shift : (e₁ - e₂ - t).toNat = k
    calc 2 ^ 23 * m₂ ≤ 2 ^ 23 * 2 ^ (m₂.log2 + 1) := Nat.mul_le_mul_left _ high.le
      _ = 2 ^ (23 + (m₂.log2 + 1)) := (pow_add 2 _ _).symm
      _ ≤ 2 ^ (m₁.log2 + k) := Nat.pow_le_pow_right two_pos (by omega)
      _ = 2 ^ m₁.log2 * 2 ^ k := pow_add 2 _ _
      _ ≤ m₁ * 2 ^ k := Nat.mul_le_mul_right _ low

theorem encodes_divCore (pos₂ : 0 < m₂) (m₁ : Nat) (e₁ e₂ : Int) :
    ∃ y : ℝ, Encodes (.ofMantissaAndAccuracy (divCore Format.binary32 m₁ e₁ m₂ e₂).1
        (divCore Format.binary32 m₁ e₁ m₂ e₂).2.2) y ∧
      y * 2 ^ (divCore Format.binary32 m₁ e₁ m₂ e₂).2.1 = m₁ * 2 ^ e₁ / (m₂ * 2 ^ e₂) := by
  refine ⟨_, encodes_div _ pos₂, ?_⟩
  simp only [divCore, Nat.shiftLeft_eq]
  generalize Format.binary32.targetExponent _ = place
  obtain ⟨k, reached⟩ : ∃ k : Nat, min (e₁ - e₂) place = e₁ - e₂ - k :=
    ⟨(e₁ - e₂ - min (e₁ - e₂) place).toNat, by omega⟩
  have shift : (e₁ - e₂ - (e₁ - e₂ - (k : Int))).toNat = k := by omega
  have nonzero : (m₂ : ℝ) ≠ 0 := by exact_mod_cast Nat.ne_of_gt pos₂
  rw [reached, shift, zpow_sub₀ two_ne_zero, zpow_sub₀ two_ne_zero, zpow_natCast]
  push_cast
  field_simp

theorem apply_one_div (s t : Sign) : (s / t).apply 1 * t.apply 1 = s.apply 1 := by
  cases s <;> cases t <;> rfl

theorem Stands.div (left : Stands a v) (right : Stands b w) (nonzero : w ≠ 0) :
    Rounds (v / w) (.ofModel (.pack (UnpackedFloat.div Format.binary32 a b))) := by
  cases right with
  | zero t => exact absurd rfl nonzero
  | @finite t m₂ e₂ shape₂ => cases left with
    | zero s =>
      rw [zero_div]
      exact (Stands.zero _).rounds
    | @finite s m₁ e₁ shape₁ =>
      obtain ⟨y, encodes, value⟩ := encodes_divCore shape₂.pos m₁ e₁ e₂
      -- The signs are taken out, so that natural numbers are divided.
      have quotient : (s.apply m₁ * 2 ^ e₁ / (t.apply m₂ * 2 ^ e₂) : ℝ)
          = (s / t).apply 1 * (m₁ * 2 ^ e₁ / (m₂ * 2 ^ e₂)) := by
        have signs : (((s / t).apply 1 : Int) : ℝ) * t.apply 1 = s.apply 1 := by
          exact_mod_cast apply_one_div s t
        have pos := shape₂.magnitude_pos.ne'
        have unit : ((t.apply 1 : Int) : ℝ) ≠ 0 := by cases t <;> simp [Sign.apply]
        rw [apply_eq_mul s, apply_eq_mul t, ← signs]
        field_simp
      rw [quotient, ← value]
      exact rounds_roundWithAccuracy (ready_div shape₁.pos shape₂.pos e₁ e₂) encodes (s / t)

theorem HasValue.div (left : HasValue x v) (right : HasValue y w) (nonzero : w ≠ 0) :
    Rounds (v / w) (x / y) :=
  Stands.div left right nonzero

/-! ## Roots -/

/-- The remainder of a root says where it is between two whole numbers; it is never in the middle. -/
theorem encodes_sqrt (n : Nat) :
    Encodes (.ofMantissaAndAccuracy n.sqrt (if n - n.sqrt * n.sqrt = 0 then .exact
      else .inexact (if n - n.sqrt * n.sqrt ≤ n.sqrt then .lt else .gt))) √n := by
  have low : n.sqrt * n.sqrt ≤ n := Nat.sqrt_le n
  have high : n < (n.sqrt + 1) * (n.sqrt + 1) := Nat.lt_succ_sqrt n
  generalize n.sqrt = q at low high
  have bound : (n : ℝ) < (q + 1) ^ 2 := by
    have cast : (n : ℝ) < ((q + 1) * (q + 1) : Nat) := by exact_mod_cast high
    push_cast at cast
    linarith
  split
  · next none =>
    have square : n = q * q := by omega
    have root : √(n : ℝ) = q := by
      rw [square, Nat.cast_mul]
      exact Real.sqrt_mul_self (Nat.cast_nonneg q)
    rw [root]
    exact .exact q
  · next some =>
    split
    · next less =>
      have above : (q ^ 2 + 1 : ℝ) ≤ n := by
        have cast : ((q * q + 1 : Nat) : ℝ) ≤ n := by exact_mod_cast (by omega : q * q + 1 ≤ n)
        push_cast at cast
        linarith
      have below : (n : ℝ) ≤ q ^ 2 + q := by
        have cast : (n : ℝ) ≤ (q * q + q : Nat) := by exact_mod_cast (by omega : n ≤ q * q + q)
        push_cast at cast
        linarith
      -- A remainder of at most the root is a quarter short of the square of the root and a half.
      refine .belowHalf ?_ ?_
      · exact (Real.lt_sqrt (Nat.cast_nonneg q)).mpr (by linarith)
      · exact (Real.sqrt_lt' (by positivity)).mpr (by linarith)
    · next more =>
      have above : (q ^ 2 + q + 1 : ℝ) ≤ n := by
        have cast : ((q * q + q + 1 : Nat) : ℝ) ≤ n := by
          exact_mod_cast (by omega : q * q + q + 1 ≤ n)
        push_cast at cast
        linarith
      refine .aboveHalf ?_ ?_
      · exact (Real.lt_sqrt (by positivity)).mpr (by linarith)
      · exact (Real.sqrt_lt' (by positivity)).mpr bound

/-- The root is taken of a multiple by an even power, which leaves it enough digits. -/
theorem ready_sqrt (pos : 0 < m) (e : Int) :
    Ready (sqrtCore Format.binary32 m e).1 (sqrtCore Format.binary32 m e).2.1 := by
  have low := Nat.log2_self_le (Nat.ne_of_gt pos)
  have place : Format.binary32.targetExponent ((totalExponent m e + 1).ediv 2)
      = max ((m.log2 + 1 + e + 1) / 2 - 24) (-149) := rfl
  have half : e.ediv 2 = e / 2 := rfl
  simp only [sqrtCore, Nat.shiftLeft_eq, place, half]
  generalize target : min (e / 2) (max ((m.log2 + 1 + e + 1) / 2 - 24) (-149)) = t
  rcases le_or_gt t (-149) with least | above
  · exact .inr least
  · refine .inl (Nat.le_sqrt.mpr ?_)
    generalize shift : (e - 2 * t).toNat = k
    calc 2 ^ 23 * 2 ^ 23 ≤ 2 ^ (m.log2 + k) := Nat.pow_le_pow_right two_pos (by omega : 46 ≤ _)
      _ = 2 ^ m.log2 * 2 ^ k := pow_add 2 _ _
      _ ≤ m * 2 ^ k := Nat.mul_le_mul_right _ low

theorem encodes_sqrtCore (m : Nat) (e : Int) :
    ∃ y : ℝ, Encodes (.ofMantissaAndAccuracy (sqrtCore Format.binary32 m e).1
        (sqrtCore Format.binary32 m e).2.2) y ∧
      y * 2 ^ (sqrtCore Format.binary32 m e).2.1 = √(m * 2 ^ e) := by
  refine ⟨_, encodes_sqrt _, ?_⟩
  have half : e.ediv 2 = e / 2 := rfl
  simp only [sqrtCore, Nat.shiftLeft_eq, half]
  generalize Format.binary32.targetExponent _ = place
  generalize target : min (e / 2) place = t
  obtain ⟨k, reached⟩ : ∃ k : Nat, e = 2 * t + k := ⟨(e - 2 * t).toNat, by omega⟩
  have shift : (2 * t + (k : Int) - 2 * t).toNat = k := by omega
  have unit : (0 : ℝ) < 2 ^ t := by positivity
  have square : (m * 2 ^ (2 * t + (k : Int)) : ℝ) = (m * 2 ^ k : Nat) * (2 ^ t) ^ 2 := by
    rw [zpow_add₀ two_ne_zero, zpow_natCast, mul_comm 2 t, zpow_mul, zpow_ofNat]
    push_cast
    ring
  rw [reached, shift, square, Real.sqrt_mul' _ (by positivity), Real.sqrt_sq unit.le]

theorem Stands.sqrt (stands : Stands a v) (nonneg : 0 ≤ v) :
    Rounds √v (.ofModel (.pack (UnpackedFloat.sqrt Format.binary32 a))) := by
  cases stands with
  | zero s =>
    rw [Real.sqrt_zero]
    exact (Stands.zero s).rounds
  | @finite s m e shape =>
    have pos := shape.magnitude_pos
    cases s with
    | negative =>
      rw [apply_negative] at nonneg
      linarith
    | positive =>
      -- Only positive numbers are left, and the root keeps the sign out of it.
      obtain ⟨y, encodes, value⟩ := encodes_sqrtCore m e
      have rounds := rounds_roundWithAccuracy (ready_sqrt shape.pos e) encodes .positive
      have plain : ((Sign.positive.apply 1 : Int) : ℝ) * √(m * 2 ^ e) = √(m * 2 ^ e) := by
        simp [Sign.apply]
      rw [value, plain] at rounds
      rw [apply_positive]
      exact rounds

theorem HasValue.sqrt (value : HasValue x v) (nonneg : 0 ≤ v) : Rounds √v x.sqrt :=
  Stands.sqrt value nonneg

/-! ## Whole parts -/

theorem toNat_ofNatClamp_le (n : Nat) : (UInt64.ofNatClamp n).toNat ≤ n := by
  unfold UInt64.ofNatClamp
  split
  · exact le_rfl
  · next large => exact (UInt64.toNat_lt _).le.trans (Nat.le_of_not_lt large)

theorem roundToInt_le (s : Sign) (m : Nat) (e : Int) :
    ((roundToInt s m e).toNat : ℝ) ≤ m * 2 ^ e := by
  have value := decreaseExponent_value m e 0
  have low : (decreaseExponent m e 0).2 ≤ 0 := by
    simp only [decreaseExponent]
    omega
  rw [← value]
  unfold roundToInt
  generalize decreaseExponent m e 0 = aligned at low
  obtain ⟨m', e'⟩ := aligned
  -- With a negative exponent the shift drops what is after the point.
  obtain ⟨k, rfl⟩ : ∃ k : Nat, e' = -k := ⟨(-e').toNat, by omega⟩
  have shift : (0 - -(k : Int)).toNat = k := by omega
  have exact : Encodes (.ofMantissaAndAccuracy m' .exact) m' := .exact m'
  have whole := (exact.shiftRight k).bounds.1
  simp only [shiftToExponent, shift]
  rw [zpow_neg, zpow_natCast, ← div_eq_mul_inv]
  refine le_trans ?_ whole
  generalize (ExtendedMantissa.ofMantissaAndAccuracy m' .exact >>> k).mantissa = q
  cases s with
  | negative => simp [Sign.apply]
  | positive => simp [Sign.apply]

theorem toNat_toUInt64_le (value : HasValue x v) (nonneg : 0 ≤ v) : (x.toUInt64.toNat : ℝ) ≤ v := by
  have reduced : x.toUInt64
      = UInt64.ofNatClamp (x.toModel.unpack.toInt 0 (UInt64.size - 1)).toNat := rfl
  rw [reduced]
  refine le_trans (Nat.cast_le.mpr (toNat_ofNatClamp_le _)) ?_
  unfold HasValue at value
  generalize x.toModel.unpack = u at value
  cases value with
  | zero s => simp [toInt]
  | @finite s m e shape =>
    cases s with
    | negative =>
      rw [apply_negative] at nonneg
      linarith [shape.magnitude_pos]
    | positive =>
      rw [apply_positive]
      exact roundToInt_le .positive m e

/-- The sum of two numbers up to a power of two is at most the next power. -/
theorem HasValue.exists_add {k : Int} (left : HasValue x v) (right : HasValue y w) (nonneg : 0 ≤ v)
    (nonneg' : 0 ≤ w) (most : v ≤ 2 ^ k) (most' : w ≤ 2 ^ k) (least : -126 ≤ k) (small : k < 127) :
    ∃ u, HasValue (x + y) u ∧ 0 ≤ u ∧ u ≤ 2 ^ (k + 1) := by
  obtain ⟨top, bounded⟩ := exists_hasValue_two_pow (k := k + 1) (by omega) (by omega)
  refine (left.add right).exists_value hasValue_zero bounded (by positivity) ?_
  rw [zpow_add₀ two_ne_zero]
  linarith

/-! ## Infinite results -/

theorem unpack_add (x y : Float32) : (x + y).toModel.unpack = (Float32.Model.pack
    (UnpackedFloat.add Format.binary32 x.toModel.unpack y.toModel.unpack)).unpack := rfl

theorem infinite_add_infinite (left : x.toModel.unpack = .infinity .positive)
    (right : y.toModel.unpack = .infinity .positive) :
    (x + y).toModel.unpack = .infinity .positive := by
  rw [unpack_add, left, right]
  exact unpack_pack_infinity .positive

theorem HasValue.add_infinite {s : Sign} (value : HasValue x v)
    (infinite : y.toModel.unpack = .infinity s) : (x + y).toModel.unpack = .infinity s := by
  rw [unpack_add, infinite]
  unfold HasValue at value
  generalize x.toModel.unpack = u at value
  cases value <;> exact unpack_pack_infinity s

theorem HasValue.infinite_add {s : Sign} (value : HasValue y v)
    (infinite : x.toModel.unpack = .infinity s) : (x + y).toModel.unpack = .infinity s := by
  rw [unpack_add, infinite]
  unfold HasValue at value
  generalize y.toModel.unpack = u at value
  cases value <;> exact unpack_pack_infinity s

theorem HasValue.isNaN_add (value : HasValue x v) (number : y.isNaN = false) :
    (x + y).isNaN = false := by
  rcases exists_value_or_infinite number with ⟨w, other⟩ | ⟨s, infinite⟩
  · exact (value.add other).number
  · exact isNaN_of_infinite (value.add_infinite infinite)

end Tilewalk.Binary32
