import Tilewalk.Proofs.Number.Rounding

/-! Mantissas with residual bits. The shifts keep what a mantissa stands for in its two residual bits, so the
rounded mantissa is off by at most a half, and what it is packed into is what its real number is rounded
to. -/

set_option autoImplicit false

namespace Tilewalk.Binary32

open Float.Model (Format UnpackedFloat totalExponent)
open Float.Model.UnpackedFloat

variable {m n : Nat} {e E : Int} {em : ExtendedMantissa} {acc : Accuracy} {y : ℝ}

/-- The mantissa with its two residual bits stands for a real number: the first bit is the half, and the
second one is set when something smaller is left. -/
inductive Encodes : ExtendedMantissa → ℝ → Prop where
  | exact (m : Nat) : Encodes ⟨m, false, false⟩ m
  | belowHalf {m : Nat} {y : ℝ} : (m : ℝ) < y → y < m + 1 / 2 → Encodes ⟨m, false, true⟩ y
  | half (m : Nat) : Encodes ⟨m, true, false⟩ (m + 1 / 2)
  | aboveHalf {m : Nat} {y : ℝ} : m + 1 / 2 < y → y < m + 1 → Encodes ⟨m, true, true⟩ y

theorem Encodes.bounds (encodes : Encodes em y) : em.mantissa ≤ y ∧ y < em.mantissa + 1 := by
  cases encodes with
  | exact m => exact ⟨le_refl _, lt_add_one _⟩
  | belowHalf above below => exact ⟨above.le, by linarith⟩
  | half m => constructor <;> linarith
  | aboveHalf above below => exact ⟨by linarith, below⟩

theorem encodes_half_exact (m : Nat) : Encodes ⟨m / 2, m % 2 != 0, false⟩ (m / 2 : ℝ) := by
  -- The last bit becomes the half.
  obtain ⟨k, rfl | rfl⟩ : ∃ k, m = 2 * k ∨ m = 2 * k + 1 := ⟨m / 2, by omega⟩
  · have whole : 2 * k / 2 = k := by omega
    have even : (2 * k % 2 != 0) = false := by simp
    have same : ((2 * k : Nat) / 2 : ℝ) = k := by push_cast; ring
    rw [whole, even, same]
    exact .exact k
  · have whole : (2 * k + 1) / 2 = k := by omega
    have odd : ((2 * k + 1) % 2 != 0) = true := by simp
    have same : ((2 * k + 1 : Nat) / 2 : ℝ) = k + 1 / 2 := by push_cast; ring
    rw [whole, odd, same]
    exact .half k

theorem encodes_half_inexact (above : (m : ℝ) < y) (below : y < m + 1) :
    Encodes ⟨m / 2, m % 2 != 0, true⟩ (y / 2) := by
  -- The last bit becomes the half, and the rest is not zero.
  obtain ⟨k, rfl | rfl⟩ : ∃ k, m = 2 * k ∨ m = 2 * k + 1 := ⟨m / 2, by omega⟩
  · have whole : 2 * k / 2 = k := by omega
    have even : (2 * k % 2 != 0) = false := by simp
    push_cast at above below
    rw [whole, even]
    exact .belowHalf (by linarith) (by linarith)
  · have whole : (2 * k + 1) / 2 = k := by omega
    have odd : ((2 * k + 1) % 2 != 0) = true := by simp
    push_cast at above below
    rw [whole, odd]
    exact .aboveHalf (by linarith) (by linarith)

theorem Encodes.shiftRightOne (encodes : Encodes em y) : Encodes em.shiftRightOne (y / 2) := by
  cases encodes with
  | exact m => exact encodes_half_exact m
  | belowHalf above below => exact encodes_half_inexact above (by linarith)
  | half m => exact encodes_half_inexact (by linarith) (by linarith)
  | aboveHalf above below => exact encodes_half_inexact (by linarith) below

theorem Encodes.shiftRight (encodes : Encodes em y) (k : Nat) : Encodes (em >>> k) (y / 2 ^ k) := by
  induction k with
  | zero =>
    rw [pow_zero, div_one]
    exact encodes
  | succ k ih =>
    -- The last of the shifts is the outermost.
    have last : em >>> (k + 1) = (em >>> k).shiftRightOne := rfl
    rw [last, pow_succ, ← div_div]
    exact ih.shiftRightOne

theorem Encodes.roundedMantissa (encodes : Encodes em y) :
    |(em.roundedMantissa : ℝ) - y| ≤ 1 / 2 := by
  rw [abs_le]
  -- Below the half the mantissa is kept, above it the next one is taken, and at the half the even one.
  cases encodes with
  | exact m =>
    have kept : ExtendedMantissa.roundedMantissa ⟨m, false, false⟩ = m := rfl
    rw [kept, sub_self]
    norm_num
  | @belowHalf m y above below =>
    have down : ExtendedMantissa.roundedMantissa ⟨m, false, true⟩ = m := rfl
    rw [down]
    constructor <;> linarith
  | half m =>
    have even : ExtendedMantissa.roundedMantissa ⟨m, true, false⟩ = m + m % 2 := rfl
    have last : ((m % 2 : Nat) : ℝ) ≤ 1 := by
      exact_mod_cast Nat.lt_succ_iff.mp (Nat.mod_lt m two_pos)
    have nonneg : (0 : ℝ) ≤ (m % 2 : Nat) := Nat.cast_nonneg _
    rw [even, Nat.cast_add]
    constructor <;> linarith
  | @aboveHalf m y above below =>
    have up : ExtendedMantissa.roundedMantissa ⟨m, true, true⟩ = m + 1 := rfl
    rw [up, Nat.cast_succ]
    constructor <;> linarith

/-! ## The last place -/

def lastPlace (m : Nat) (e : Int) : Int := Format.binary32.targetExponent (totalExponent m e)

theorem lastPlace_eq (m : Nat) (e : Int) : lastPlace m e = max (m.log2 + 1 + e - 24) (-149) := rfl

/-- A mantissa has digits enough to be rounded by dropping some. -/
def Ready (m : Nat) (e : Int) : Prop := 2 ^ 23 ≤ m ∨ e ≤ -149

theorem Ready.le_lastPlace (ready : Ready m e) : e ≤ lastPlace m e := by
  rw [lastPlace_eq]
  rcases ready with long | low
  · have digits : 23 ≤ m.log2 := (Nat.le_log2 (by omega)).mpr long
    omega
  · omega

theorem Ready.bounds (ready : Ready m e) (lower : (m : ℝ) ≤ y) (upper : y < m + 1) :
    y / 2 ^ (lastPlace m e - e).toNat < 2 ^ 24 ∧
      (2 ^ 23 ≤ y / 2 ^ (lastPlace m e - e).toNat ∨ lastPlace m e = -149) := by
  have place := ready.le_lastPlace
  rw [lastPlace_eq] at place ⊢
  generalize shift : (max (m.log2 + 1 + e - 24) (-149) - e).toNat = k
  have scale : (0 : ℝ) < 2 ^ k := by positivity
  -- The mantissa has one digit more than its logarithm, of which at most 24 are left by the shift.
  have digits : (y : ℝ) < 2 ^ (m.log2 + 1) := by
    have whole : m + 1 ≤ 2 ^ (m.log2 + 1) := Nat.lt_log2_self
    have cast : (m + 1 : ℝ) ≤ 2 ^ (m.log2 + 1) := by exact_mod_cast whole
    linarith
  constructor
  · rw [div_lt_iff₀ scale, ← pow_add]
    calc y < 2 ^ (m.log2 + 1) := digits
      _ ≤ 2 ^ (24 + k) := pow_le_pow_right₀ one_le_two (by omega)
  · rcases le_or_gt (m.log2 + 1 + e - 24) (-149) with low | high
    · exact .inr (max_eq_right low)
    · refine .inl ?_
      have nonzero : m ≠ 0 := by
        rintro rfl
        rw [Nat.log2_zero] at high
        rcases ready with long | low <;> omega
      have long : (2 ^ m.log2 : ℝ) ≤ m := by exact_mod_cast Nat.log2_self_le nonzero
      rw [le_div_iff₀ scale, ← pow_add]
      calc (2 : ℝ) ^ (23 + k) ≤ 2 ^ m.log2 := pow_le_pow_right₀ one_le_two (by omega)
        _ ≤ m := long
        _ ≤ y := lower

theorem shiftToTargetExponent_eq (m : Nat) (e : Int) (acc : Accuracy) :
    shiftToTargetExponent Format.binary32 m e acc
      = (ExtendedMantissa.ofMantissaAndAccuracy m acc >>> (lastPlace m e - e).toNat,
        e + ((lastPlace m e - e).toNat : Int)) := rfl

/-- A rounded mantissa may have one digit too many, which is a zero. -/
theorem shiftToTargetExponent_carry (bits : n ≤ 2 ^ 24) (least : -149 ≤ E)
    (normal : 2 ^ 23 ≤ n ∨ E = -149) :
    ∃ m e, shiftToTargetExponent Format.binary32 n E .exact
        = (ExtendedMantissa.ofMantissaAndAccuracy m .exact, e) ∧
      (m * 2 ^ e : ℝ) = n * 2 ^ E ∧ (m = 0 ∨ Canonical m e) := by
  rcases Nat.lt_or_eq_of_le bits with short | rfl
  · -- Nothing is shifted when the digits fit.
    have still : (lastPlace n E - E).toNat = 0 := by
      rw [lastPlace_eq]
      have digits : n.log2 ≤ 23 := by
        by_cases zero : n = 0
        · simp [zero]
        · exact Nat.lt_succ_iff.mp ((Nat.log2_lt zero).mpr short)
      omega
    refine ⟨n, E, ?_, rfl, ?_⟩
    · rw [shiftToTargetExponent_eq, still, Nat.cast_zero, add_zero]
      rfl
    · by_cases zero : n = 0
      · exact .inl zero
      · exact .inr ⟨Nat.pos_of_ne_zero zero, short, least, normal⟩
  · -- The one mantissa with 25 digits is a power of two and loses a zero.
    have carried : (lastPlace (2 ^ 24) E - E).toNat = 1 := by
      rw [lastPlace_eq, Nat.log2_two_pow]
      omega
    refine ⟨2 ^ 23, E + 1, ?_, ?_, .inr ⟨by decide, by decide, by omega, .inl le_rfl⟩⟩
    · rw [shiftToTargetExponent_eq, carried]
      exact congrArg (·, E + 1) (shiftRight_scaled (2 ^ 23) 1)
    · rw [zpow_add₀ two_ne_zero]
      push_cast
      ring

/-- What is left after the second of the shifts stands for the mantissa that the first one was rounded to. -/
theorem stands_roundWithAccuracy (s : Sign)
    (first : shiftToTargetExponent Format.binary32 m e acc = (em, E))
    (rounded : em.roundedMantissa = n) (bits : n ≤ 2 ^ 24) (least : -149 ≤ E)
    (normal : 2 ^ 23 ≤ n ∨ E = -149) :
    Stands (roundWithAccuracy Format.binary32 s m e acc) (s.apply n * 2 ^ E) := by
  obtain ⟨m', e', second, same, shape⟩ := shiftToTargetExponent_carry bits least normal
  have kept : (ExtendedMantissa.ofMantissaAndAccuracy m' .exact).mantissa = m' := rfl
  rw [apply_eq_mul, mul_assoc, ← same, ← mul_assoc, ← apply_eq_mul]
  simp only [roundWithAccuracy, first, rounded, second, kept]
  split
  · next none =>
    subst none
    have zero : ((s.apply (0 : Nat) : Int) : ℝ) * 2 ^ e' = 0 := by cases s <;> simp [Sign.apply]
    rw [zero]
    exact .zero s
  · next some => exact .finite s (shape.resolve_left some)

theorem nearest_of_mantissa {z : ℝ} (least : -149 ≤ E) (normal : 2 ^ 23 ≤ z ∨ E = -149)
    (nonneg : 0 ≤ z) (near : |(n : ℝ) - z| ≤ 1 / 2) (s : Sign) :
    Nearest E (s.apply 1 * (z * 2 ^ E)) (s.apply n) where
  least := least
  normal := normal.imp_left fun long => by
    rw [abs_apply_one_mul, abs_of_nonneg (mul_nonneg nonneg (by positivity))]
    gcongr
  near := by
    have unit : (0 : ℝ) < 2 ^ E := by positivity
    have apart : ((s.apply n : Int) : ℝ) * 2 ^ E - s.apply 1 * (z * 2 ^ E)
        = s.apply 1 * ((n - z) * 2 ^ E) := by
      rw [apply_eq_mul]
      ring
    rw [apart, abs_apply_one_mul, abs_mul, abs_of_pos unit]
    calc |(n : ℝ) - z| * 2 ^ E ≤ 1 / 2 * 2 ^ E := by gcongr
      _ = 2 ^ E / 2 := by ring

theorem rounds_roundWithAccuracy (ready : Ready m e)
    (encodes : Encodes (.ofMantissaAndAccuracy m acc) y) (s : Sign) :
    Rounds (s.apply 1 * (y * 2 ^ e))
      (.ofModel (.pack (roundWithAccuracy Format.binary32 s m e acc))) := by
  have whole : (ExtendedMantissa.ofMantissaAndAccuracy m acc).mantissa = m := by
    cases acc with
    | exact => rfl
    | inexact o => cases o <;> rfl
  obtain ⟨lower, upper⟩ := encodes.bounds
  rw [whole] at lower upper
  obtain ⟨short, normal⟩ := ready.bounds lower upper
  have place := ready.le_lastPlace
  have first := shiftToTargetExponent_eq m e acc
  have least : -149 ≤ lastPlace m e := by
    rw [lastPlace_eq]
    exact le_max_right _ _
  generalize shift : (lastPlace m e - e).toNat = k at short normal first
  generalize lastPlace m e = E at *
  obtain rfl : E = e + (k : Int) := by omega
  have near := (encodes.shiftRight k).roundedMantissa
  generalize rounded : (ExtendedMantissa.ofMantissaAndAccuracy m acc >>> k).roundedMantissa = n
    at near
  obtain ⟨nearLow, nearHigh⟩ := abs_le.mp near
  -- Rounding may carry into a new digit, but not past it, and loses none of the digits that there are.
  have bits : n ≤ 2 ^ 24 := by
    have close : (n : ℝ) < (2 ^ 24 + 1 : Nat) := by
      push_cast
      linarith
    exact Nat.lt_succ_iff.mp (by exact_mod_cast close)
  have full : 2 ^ 23 ≤ n ∨ e + (k : Int) = -149 := by
    refine normal.imp_left fun long => ?_
    have close : ((2 ^ 23 : Nat) : ℝ) < (n + 1 : Nat) := by
      push_cast
      linarith
    exact Nat.lt_succ_iff.mp (by exact_mod_cast close)
  have scaled : y * 2 ^ e = y / 2 ^ k * 2 ^ (e + (k : Int)) := by
    rw [zpow_add₀ two_ne_zero, zpow_natCast]
    field_simp
  have nonneg : 0 ≤ y / 2 ^ k := div_nonneg ((Nat.cast_nonneg m).trans lower) (by positivity)
  rw [scaled]
  exact (nearest_of_mantissa least normal nonneg near s).rounds
    (stands_roundWithAccuracy s first rounded bits least full)

end Tilewalk.Binary32
