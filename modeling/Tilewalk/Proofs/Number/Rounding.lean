import Tilewalk.Proofs.Number.Value

/-! Real numbers rounded to 32-bit ones. The multiple of a last place that is nearest to a real number is on
the same side of every number of 24 bits as the real number is, and it is off by at most a half of that
place. -/

set_option autoImplicit false

namespace Tilewalk.Binary32

open Float.Model (UnpackedFloat)
open Float.Model.UnpackedFloat

variable {e E k n : Int} {s : Sign} {x v w : ℝ} {r d : Float32}

/-- The integer is nearest to a real number in units of a last place that the format has for it. -/
structure Nearest (E : Int) (x : ℝ) (n : Int) : Prop where
  least : -149 ≤ E
  normal : 2 ^ 23 * 2 ^ E ≤ |x| ∨ E = -149
  near : |n * 2 ^ E - x| ≤ 2 ^ E / 2

theorem Nearest.neg (nearest : Nearest E x n) : Nearest E (-x) (-n) where
  least := nearest.least
  normal := by
    rw [abs_neg]
    exact nearest.normal
  near := by
    have flipped : ((-n : Int) : ℝ) * 2 ^ E - -x = -(n * 2 ^ E - x) := by push_cast; ring
    rw [flipped, abs_neg]
    exact nearest.near

theorem abs_scaled_lt (bits : |k| < 2 ^ 24) (less : e < E) :
    |(k : ℝ) * 2 ^ e| < 2 ^ 23 * 2 ^ E := by
  have short : |(k : ℝ)| < 2 ^ 24 := by exact_mod_cast bits
  have scale : (0 : ℝ) < 2 ^ e := by positivity
  calc |(k : ℝ) * 2 ^ e| = |(k : ℝ)| * 2 ^ e := by rw [abs_mul, abs_of_pos scale]
    _ < 2 ^ 24 * 2 ^ e := by gcongr
    _ = 2 ^ 23 * 2 ^ (e + 1) := by rw [zpow_add₀ two_ne_zero]; ring
    _ ≤ 2 ^ 23 * 2 ^ E := by gcongr; exacts [one_le_two, less]

theorem exists_multiple (k : Int) (fine : E ≤ e) :
    ∃ j : Int, (k : ℝ) * 2 ^ e = j * 2 ^ E := by
  obtain ⟨d, rfl⟩ : ∃ d : Nat, e = E + d := ⟨(e - E).toNat, by omega⟩
  refine ⟨k * 2 ^ d, ?_⟩
  rw [zpow_add₀ two_ne_zero, zpow_natCast]
  push_cast
  ring

theorem Nearest.exists_between (nearest : Nearest E x n) (bits : |k| < 2 ^ 24) (least : -149 ≤ e)
    (below : (k : ℝ) * 2 ^ e ≤ x) : ∃ j : Int, (k : ℝ) * 2 ^ e ≤ j * 2 ^ E ∧ j * 2 ^ E ≤ x := by
  rcases le_or_gt E e with fine | coarse
  · obtain ⟨j, same⟩ := exists_multiple k fine
    exact ⟨j, same.le, same ▸ below⟩
  · -- The real number is too large for anything with a smaller unit.
    have large := nearest.normal.resolve_right (by omega)
    obtain ⟨smallLow, smallHigh⟩ := abs_lt.mp (abs_scaled_lt bits coarse)
    have positive : 0 ≤ x := by
      by_contra negative
      rw [abs_of_neg (not_le.mp negative)] at large
      linarith
    rw [abs_of_nonneg positive] at large
    refine ⟨2 ^ 23, ?_, ?_⟩
    · push_cast
      linarith
    · push_cast
      linarith

theorem Nearest.le_of_multiple (nearest : Nearest E x n) {j : Int} (below : j * 2 ^ E ≤ x) :
    j ≤ n := by
  have unit : (0 : ℝ) < 2 ^ E := by positivity
  have high := (abs_le.mp nearest.near).1
  have close : (j : ℝ) * 2 ^ E < ((n + 1 : Int) : ℝ) * 2 ^ E := by
    push_cast
    linarith
  exact Int.lt_add_one_iff.mp (by exact_mod_cast lt_of_mul_lt_mul_right close unit.le)

theorem Nearest.le_of_scaled (nearest : Nearest E x n) (bits : |k| < 2 ^ 24) (least : -149 ≤ e)
    (below : (k : ℝ) * 2 ^ e ≤ x) : (k : ℝ) * 2 ^ e ≤ n * 2 ^ E := by
  obtain ⟨j, first, second⟩ := nearest.exists_between bits least below
  have ordered : (j : ℝ) ≤ n := by exact_mod_cast nearest.le_of_multiple second
  calc (k : ℝ) * 2 ^ e ≤ j * 2 ^ E := first
    _ ≤ n * 2 ^ E := by gcongr

theorem Nearest.ge_of_scaled (nearest : Nearest E x n) (bits : |k| < 2 ^ 24) (least : -149 ≤ e)
    (above : x ≤ (k : ℝ) * 2 ^ e) : (n : ℝ) * 2 ^ E ≤ k * 2 ^ e := by
  have flipped : ((-k : Int) : ℝ) * 2 ^ e ≤ -x := by
    push_cast
    linarith
  have ordered := nearest.neg.le_of_scaled (by rwa [abs_neg]) least flipped
  push_cast at ordered
  linarith

theorem Nearest.abs_sub_le_of_le (nearest : Nearest E x n) (bits : |k| < 2 ^ 24) (least : -149 ≤ e)
    (below : (k : ℝ) * 2 ^ e ≤ x) : |n * 2 ^ E - x| ≤ |k * 2 ^ e - x| := by
  have unit : (0 : ℝ) < 2 ^ E := by positivity
  obtain ⟨nearLow, nearHigh⟩ := abs_le.mp nearest.near
  obtain ⟨j, first, second⟩ := nearest.exists_between bits least below
  rw [abs_of_nonpos (by linarith : (k * 2 ^ e : ℝ) - x ≤ 0)]
  rcases Int.lt_or_eq_of_le (nearest.le_of_multiple second) with less | rfl
  · have apart : (j + 1 : ℝ) * 2 ^ E ≤ n * 2 ^ E := by
      have next : (j + 1 : ℝ) ≤ n := by exact_mod_cast less
      gcongr
    rw [abs_le]
    constructor <;> linarith
  · rw [abs_of_nonpos (by linarith)]
    linarith

theorem Nearest.abs_sub_le_abs_sub (nearest : Nearest E x n) (bits : |k| < 2 ^ 24)
    (least : -149 ≤ e) : |n * 2 ^ E - x| ≤ |k * 2 ^ e - x| := by
  rcases le_or_gt (k * 2 ^ e : ℝ) x with below | above
  · exact nearest.abs_sub_le_of_le bits least below
  · have flipped : ((-k : Int) : ℝ) * 2 ^ e ≤ -x := by
      push_cast
      linarith
    have closer := nearest.neg.abs_sub_le_of_le (by rwa [abs_neg]) least flipped
    rw [abs_sub_comm (n * 2 ^ E : ℝ), abs_sub_comm (k * 2 ^ e : ℝ)]
    push_cast at closer
    convert closer using 2 <;> ring

theorem Nearest.abs_sub_le (nearest : Nearest E x n) :
    |n * 2 ^ E - x| ≤ 2⁻¹ ^ 24 * |x| + 2⁻¹ ^ 150 := by
  have tiny : (0 : ℝ) ≤ 2⁻¹ ^ 24 * |x| := by positivity
  refine nearest.near.trans ?_
  rcases nearest.normal with large | least
  · have relative : (2 : ℝ) ^ E / 2 ≤ 2⁻¹ ^ 24 * |x| := by
      calc (2 : ℝ) ^ E / 2 = 2⁻¹ ^ 24 * (2 ^ 23 * 2 ^ E) := by ring
        _ ≤ 2⁻¹ ^ 24 * |x| := by gcongr
    have extra : (0 : ℝ) ≤ 2⁻¹ ^ 150 := by positivity
    linarith
  · have absolute : (2 : ℝ) ^ E / 2 = 2⁻¹ ^ 150 := by
      rw [least]
      norm_num
    linarith

/-! ## Numbers -/

/-- The number is what a real one is rounded to. A 32-bit number that is not above the real one is not above
the rounded one, and one that is not below is not below. -/
structure Rounds (v : ℝ) (r : Float32) : Prop where
  number : r.isNaN = false
  ge_of_le {d : Float32} {w : ℝ} : HasValue d w → w ≤ v → d ≤ r
  le_of_ge {d : Float32} {w : ℝ} : HasValue d w → v ≤ w → r ≤ d
  nearest {d : Float32} {w u : ℝ} : HasValue r w → HasValue d u → |w - v| ≤ |u - v|
  near {w : ℝ} : HasValue r w → |w - v| ≤ 2⁻¹ ^ 24 * |v| + 2⁻¹ ^ 150

theorem isNaN_of_infinite (infinite : r.toModel.unpack = .infinity s) : r.isNaN = false := by
  rw [isNaN_eq_false_iff, infinite]
  exact fun same => by cases same

theorem not_hasValue_of_infinite (infinite : r.toModel.unpack = .infinity s) : ¬ HasValue r w := by
  rw [HasValue, infinite]
  exact fun stands => by cases stands

theorem Nearest.rounds {u : UnpackedFloat} (nearest : Nearest E v n)
    (stands : Stands u (n * 2 ^ E)) : Rounds v (.ofModel (.pack u)) := by
  have lower {d : Float32} {w : ℝ} (value : HasValue d w) (below : w ≤ v) : w ≤ n * 2 ^ E := by
    obtain ⟨k, e, bits, least, -, rfl⟩ := value.exists_scaled
    exact nearest.le_of_scaled bits least below
  have upper {d : Float32} {w : ℝ} (value : HasValue d w) (above : v ≤ w) : n * 2 ^ E ≤ w := by
    obtain ⟨k, e, bits, least, -, rfl⟩ := value.exists_scaled
    exact nearest.ge_of_scaled bits least above
  -- What is too large for the format becomes infinite, and then lies beyond every number on its side.
  rcases stands.pack_cases with finite | ⟨infinite, large⟩ | ⟨infinite, large⟩
  · exact
      { number := finite.number
        ge_of_le := fun value below => (value.le_iff finite).mpr (lower value below)
        le_of_ge := fun value above => (finite.le_iff value).mpr (upper value above)
        nearest := fun value other => by
          obtain ⟨k, e, bits, least, -, rfl⟩ := other.exists_scaled
          rw [value.eq finite]
          exact nearest.abs_sub_le_abs_sub bits least
        near := fun value => by
          rw [value.eq finite]
          exact nearest.abs_sub_le }
  · refine ⟨isNaN_of_infinite infinite, fun value _ => le_of_lt (value.lt_infinity infinite),
      fun value above => ?_, fun value => absurd value (not_hasValue_of_infinite infinite),
      fun value => absurd value (not_hasValue_of_infinite infinite)⟩
    have bounded := (abs_lt.mp value.abs_lt).2
    exact absurd (large.trans (upper value above)) (not_le.mpr bounded)
  · refine ⟨isNaN_of_infinite infinite, fun value below => ?_,
      fun value _ => le_of_lt (value.infinity_lt infinite),
      fun value => absurd value (not_hasValue_of_infinite infinite),
      fun value => absurd value (not_hasValue_of_infinite infinite)⟩
    have bounded := (abs_lt.mp value.abs_lt).1
    exact absurd ((lower value below).trans large) (not_le.mpr bounded)

theorem Rounds.exists_value (rounds : Rounds v r) {lo hi : Float32} {l h : ℝ} (lower : HasValue lo l)
    (upper : HasValue hi h) (above : l ≤ v) (below : v ≤ h) :
    ∃ w, HasValue r w ∧ l ≤ w ∧ w ≤ h := by
  have first := rounds.ge_of_le lower above
  have second := rounds.le_of_ge upper below
  rcases exists_value_or_infinite rounds.number with ⟨w, value⟩ | ⟨s, infinite⟩
  · exact ⟨w, value, (lower.le_iff value).mp first, (value.le_iff upper).mp second⟩
  · cases s with
    | positive => exact absurd second (not_le_of_lt (upper.lt_infinity infinite))
    | negative => exact absurd first (not_le_of_lt (lower.infinity_lt infinite))

theorem Rounds.middle_le {u : ℝ} (rounds : Rounds v r) (value : HasValue r w) (other : HasValue d u)
    (less : u < w) : u + w ≤ 2 * v := by
  by_contra below
  have closer : |u - v| < w - v := abs_lt.mpr ⟨by linarith, by linarith⟩
  linarith [le_abs_self (w - v), rounds.nearest value other]

theorem Rounds.le_middle {u : ℝ} (rounds : Rounds v r) (value : HasValue r w) (other : HasValue d u)
    (more : w < u) : 2 * v ≤ w + u := by
  by_contra above
  have closer : |u - v| < -(w - v) := abs_lt.mpr ⟨by linarith, by linarith⟩
  linarith [neg_le_abs (w - v), rounds.nearest value other]

theorem Rounds.le_of_lt {v' w' : ℝ} {r' : Float32} (rounds : Rounds v r) (rounds' : Rounds v' r')
    (value : HasValue r w) (value' : HasValue r' w') (less : v < v') : w ≤ w' := by
  -- The middle of the two results would be below the one number and above the other.
  by_contra crossed
  have first := rounds.middle_le value value' (not_le.mp crossed)
  have second := rounds'.le_middle value' value (not_le.mp crossed)
  linarith

/-! ## Last places -/

theorem HasValue.exists_places {x : Float32} {k : Int} (value : HasValue x v) (large : 2 ^ k ≤ v) :
    ∃ j : Int, v = j * 2 ^ (k - 23) := by
  obtain ⟨j, e, bits, -, -, rfl⟩ := value.exists_scaled
  refine exists_multiple j ?_
  -- With a finer last place the 24 bits would not reach so far.
  by_contra fine
  have small := lt_of_abs_lt (abs_scaled_lt bits (not_le.mp fine))
  have same : (2 : ℝ) ^ 23 * 2 ^ (k - 23) = 2 ^ k := by
    rw [zpow_sub₀ two_ne_zero]
    norm_num
    ring
  linarith

theorem HasValue.add_place_le {x y : Float32} {k : Int} (value : HasValue x v) (other : HasValue y w)
    (large : 2 ^ k ≤ v) (less : v < w) : v + 2 ^ (k - 23) ≤ w := by
  obtain ⟨i, rfl⟩ := value.exists_places large
  obtain ⟨j, rfl⟩ := other.exists_places (large.trans less.le)
  have unit : (0 : ℝ) < 2 ^ (k - 23) := by positivity
  have next : i < j := by exact_mod_cast lt_of_mul_lt_mul_right less unit.le
  have apart : (i + 1 : ℝ) ≤ j := by exact_mod_cast next
  calc (i : ℝ) * 2 ^ (k - 23) + 2 ^ (k - 23) = (i + 1) * 2 ^ (k - 23) := by ring
    _ ≤ j * 2 ^ (k - 23) := by gcongr

theorem HasValue.exists_add_places {x : Float32} {k : Int} (value : HasValue x v)
    (large : 2 ^ k ≤ v) (least : -126 ≤ k) (most : k ≤ 127) (n : Nat)
    (small : v + n * 2 ^ (k - 23) < 2 ^ (k + 1)) : ∃ y, HasValue y (v + n * 2 ^ (k - 23)) := by
  obtain ⟨j, rfl⟩ := value.exists_places large
  have unit : (0 : ℝ) < 2 ^ (k - 23) := by positivity
  have low : (2 : ℝ) ^ k = 2 ^ 23 * 2 ^ (k - 23) := by
    rw [zpow_sub₀ two_ne_zero]
    norm_num
    ring
  have high : (2 : ℝ) ^ (k + 1) = 2 ^ 24 * 2 ^ (k - 23) := by
    rw [zpow_add₀ two_ne_zero, low]
    norm_num
    ring
  have sum : (j : ℝ) * 2 ^ (k - 23) + n * 2 ^ (k - 23) = (j + n) * 2 ^ (k - 23) := by ring
  rw [low] at large
  rw [sum, high] at small
  -- In units of the place the sum still has 24 bits, so it is in the shape of the format.
  have full : 2 ^ 23 ≤ j := by exact_mod_cast le_of_mul_le_mul_right large unit
  have fits : j + n < 2 ^ 24 := by exact_mod_cast lt_of_mul_lt_mul_right small unit.le
  have shape : Canonical (j + n).toNat (k - 23) :=
    ⟨by omega, by omega, by omega, .inl (by omega)⟩
  have whole : (((j + n).toNat : Int) : ℝ) = j + n := by
    rw [Int.toNat_of_nonneg (by omega)]
    push_cast
    rfl
  have same : ((Sign.positive.apply ((j + n).toNat : Nat) : Int) : ℝ) * 2 ^ (k - 23)
      = j * 2 ^ (k - 23) + n * 2 ^ (k - 23) := by
    rw [apply_positive, sum]
    exact congrArg (· * (2 : ℝ) ^ (k - 23)) whole
  exact ⟨_, same ▸ shape.hasValue_pack .positive (by omega)⟩

/-- A real number in the shape of the format is kept, unless it is too large. -/
theorem Stands.rounds {u : UnpackedFloat} (stands : Stands u v) : Rounds v (.ofModel (.pack u)) := by
  cases stands with
  | zero t =>
    have nearest : Nearest (-149) 0 0 := ⟨le_rfl, .inr rfl, by norm_num⟩
    exact nearest.rounds (by simpa using Stands.zero t)
  | @finite t m e shape =>
    have nearest : Nearest e (t.apply m * 2 ^ e) (t.apply m) :=
      { least := shape.least
        normal := shape.normal.imp_left fun full => by
          have long : (2 ^ 23 : ℝ) ≤ m := by exact_mod_cast full
          rw [apply_eq_mul, mul_assoc, abs_apply_one_mul, abs_of_pos shape.magnitude_pos]
          gcongr
        near := by
          rw [sub_self, abs_zero]
          positivity }
    exact nearest.rounds (.finite t shape)

theorem hasValue_zero : HasValue 0 0 := Stands.zero .positive

theorem hasValue_one : HasValue 1 1 :=
  hasValue_of_unpack (m := 8388608) (e := -23) (by decide) rfl (by norm_num)

theorem hasValue_ten : HasValue 10 10 :=
  hasValue_of_unpack (m := 10485760) (e := -20) (by decide) rfl (by norm_num)

theorem value_or_infinite_of_nonneg (nonneg : 0 ≤ r) :
    (∃ w, HasValue r w ∧ 0 ≤ w) ∨ r.toModel.unpack = .infinity .positive := by
  rcases exists_value_or_infinite (numbers_of_le nonneg).2 with ⟨w, value⟩ | ⟨s, infinite⟩
  · exact .inl ⟨w, value, (hasValue_zero.le_iff value).mp nonneg⟩
  · cases s with
    | positive => exact .inr infinite
    | negative => exact absurd nonneg (not_le_of_lt (hasValue_zero.infinity_lt infinite))

theorem exists_value_of_le {hi : Float32} {h : ℝ} (upper : HasValue hi h) (nonneg : 0 ≤ r)
    (below : r ≤ hi) : ∃ w, HasValue r w ∧ 0 ≤ w ∧ w ≤ h := by
  rcases value_or_infinite_of_nonneg nonneg with ⟨w, value, low⟩ | infinite
  · exact ⟨w, value, low, (value.le_iff upper).mp below⟩
  · exact absurd below (not_le_of_lt (upper.lt_infinity infinite))

theorem exists_hasValue_two_pow {k : Int} (least : -126 ≤ k) (most : k ≤ 127) :
    ∃ x, HasValue x (2 ^ k) := by
  have shape : Canonical (2 ^ 23) (k - 23) := ⟨by decide, by decide, by omega, .inl le_rfl⟩
  have same : ((Sign.positive.apply (2 ^ 23 : Nat) : Int) : ℝ) * 2 ^ (k - 23) = 2 ^ k := by
    rw [apply_positive, zpow_sub₀ two_ne_zero]
    push_cast
    norm_num
    ring
  exact ⟨_, same ▸ shape.hasValue_pack .positive (by omega)⟩

/-- Far from overflow a rounded number exceeds the real one by little more than a part of it. -/
theorem Rounds.exists_le (rounds : Rounds v r) (nonneg : 0 ≤ v) (small : v ≤ 2 ^ (127 : Int)) :
    ∃ w, HasValue r w ∧ 0 ≤ w ∧ w ≤ v * (1 + 2⁻¹ ^ 24) + 2⁻¹ ^ 150 := by
  obtain ⟨top, bounded⟩ := exists_hasValue_two_pow (k := 127) (by decide) (by decide)
  obtain ⟨w, value, low, -⟩ := rounds.exists_value hasValue_zero bounded nonneg small
  have near := (abs_le.mp (rounds.near value)).2
  rw [abs_of_nonneg nonneg] at near
  exact ⟨w, value, low, by linarith⟩

end Tilewalk.Binary32
