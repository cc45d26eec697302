import Tilewalk.Proofs.Config.Legal
import Tilewalk.Proofs.Number.Arithmetic

/-! One tick stays within the reach of a trigger. The longest tick is computed with three roundings and the
distance of a step with three more. As long as the reach is not large, what they add to the distance is
rounded to no more than the slack that is allowed. A tick is never shorter than a millisecond. -/

set_option autoImplicit false

namespace Tilewalk
namespace SimConfig

open Binary32 Float.Model.UnpackedFloat
open Float.Model (Format UnpackedFloat)

variable {c : SimConfig} {M R : ℝ} {tick : UInt64}

/-- The player covers no more than the reach in one tick, up to a small slack. -/
def StaysInReach (c : SimConfig) (speed : Float32) : Prop :=
  c.dt * speed ≤ c.reach + 1e-4

def shortest (c : SimConfig) : SimConfig := { c with tickRateMs := 1 }

/-! ## Numbers -/

theorem hasValue_thousand : HasValue 1000 1000 :=
  hasValue_of_unpack (m := 16384000) (e := -14) (by decide) rfl (by norm_num)

theorem hasValue_eight_hundred_fifty_three : HasValue 853 853 :=
  hasValue_of_unpack (m := 13975552) (e := -14) (by decide) rfl (by norm_num)

theorem hasValue_many : HasValue 32769 32769 :=
  hasValue_of_unpack (m := 8388864) (e := -8) (by decide) rfl (by norm_num)

theorem exists_summand : ∃ s, HasValue 0.001 s ∧ 0 < s ∧ s ≤ 0.00100001 :=
  ⟨_, hasValue_of_unpack (m := 8589935) (e := -33) (by decide) rfl rfl, by positivity, by norm_num⟩

theorem exists_slack : ∃ s, HasValue 1e-4 s ∧ 0.00009999 < s :=
  ⟨_, hasValue_of_unpack (m := 13743895) (e := -37) (by decide) rfl rfl, by norm_num⟩

/-! ## One tick -/

/-- The number of milliseconds in which the reach is covered, before anything after the point is dropped. -/
def room (c : SimConfig) : Float32 := c.reach / c.maxSpeed * 1000 + 0.001

theorem scaled_le {w v : ℝ} (most : w ≤ v * (1 + 2⁻¹ ^ 24) + 2⁻¹ ^ 150) (moving : 0 < M)
    (slow : M ≤ 10) : w * M ≤ v * M * (1 + 2⁻¹ ^ 24) + 10 * 2⁻¹ ^ 150 := by
  have tiny : (2⁻¹ ^ 150 : ℝ) * M ≤ 2⁻¹ ^ 150 * 10 := by gcongr
  calc w * M ≤ (v * (1 + 2⁻¹ ^ 24) + 2⁻¹ ^ 150) * M := by gcongr
    _ = v * M * (1 + 2⁻¹ ^ 24) + 2⁻¹ ^ 150 * M := by ring
    _ ≤ v * M * (1 + 2⁻¹ ^ 24) + 10 * 2⁻¹ ^ 150 := by linarith

theorem exists_quotient (speed : HasValue c.maxSpeed M) (moving : 0 < M) (slow : M ≤ 10)
    (reach : HasValue c.reach R) (apart : 0 < R) (few : R / M ≤ 2 ^ (100 : Int)) :
    ∃ w, HasValue (c.reach / c.maxSpeed * 1000) w ∧ 0 ≤ w ∧ w ≤ 2 ^ (112 : Int) ∧
      w * M ≤ R * 1000 * (1 + 2⁻¹ ^ 24) ^ 2 + 2⁻¹ ^ 130 := by
  have quotient : 0 ≤ R / M := by positivity
  have limit : (2 : ℝ) ^ (100 : Int) ≤ 2 ^ (127 : Int) := by norm_num
  -- The division is rounded first, and then the product with a thousand.
  obtain ⟨w₁, value₁, nonneg₁, most₁⟩ :=
    (reach.div speed moving.ne').exists_le quotient (few.trans limit)
  have bound₁ : w₁ ≤ 2 ^ (101 : Int) := by
    norm_num at few most₁ ⊢
    linarith
  obtain ⟨w₂, value₂, nonneg₂, most₂⟩ := (value₁.mul hasValue_thousand).exists_le (by positivity)
    (by norm_num at bound₁ ⊢; linarith)
  refine ⟨w₂, value₂, nonneg₂, ?_, ?_⟩
  · norm_num at bound₁ most₂ ⊢
    linarith
  · have first := scaled_le most₁ moving slow
    have second := scaled_le most₂ moving slow
    rw [div_mul_cancel₀ R moving.ne'] at first
    norm_num at first second ⊢
    linarith

theorem exists_dt_of_le {x : Float32} {w : ℝ} (top : HasValue x w) (bounded : w ≤ 2 ^ (113 : Int))
    (within : tick.toNat ≤ w) :
    ∃ t d, HasValue tick.toFloat32 t ∧ HasValue (tick.toFloat32 / 1000) d ∧ 0 ≤ d ∧ t ≤ w ∧
      d ≤ t / 1000 * (1 + 2⁻¹ ^ 24) + 2⁻¹ ^ 150 := by
  -- The count of milliseconds is rounded first, which does not pass `w`, and then the seconds.
  obtain ⟨t, count, nonneg, most⟩ :=
    (rounds_toFloat32 tick).exists_value hasValue_zero top (Nat.cast_nonneg _) within
  obtain ⟨d, value, nonneg', most'⟩ :=
    (count.div hasValue_thousand (by norm_num)).exists_le (by positivity)
      (by norm_num at bounded ⊢; linarith)
  exact ⟨t, d, count, value, nonneg', most, most'⟩

/-- The roundings of the room and of a tick that fits into it add four parts to the reach at most. -/
theorem exists_dt_of_fits (speed : HasValue c.maxSpeed M) (moving : 0 < M) (slow : M ≤ 10)
    (reach : HasValue c.reach R) (apart : 0 < R) (few : R / M ≤ 2 ^ (100 : Int))
    (fits : tick.toNat ≤ c.room.toUInt64.toNat) :
    ∃ d, HasValue (tick.toFloat32 / 1000) d ∧ 0 ≤ d ∧
      d * M ≤ R * (1 + 2⁻¹ ^ 24) ^ 4 + 0.0000101 := by
  obtain ⟨s, summand, low, high⟩ := exists_summand
  obtain ⟨w, quotient, nonneg, bounded, first⟩ := exists_quotient speed moving slow reach apart few
  obtain ⟨r, room, nonneg', most⟩ := (quotient.add summand).exists_le (by positivity)
    (by norm_num at bounded ⊢; linarith)
  have whole : (tick.toNat : ℝ) ≤ r := by
    refine le_trans ?_ (toNat_toUInt64_le room nonneg')
    exact_mod_cast fits
  obtain ⟨t, d, -, value, positive, within, least⟩ :=
    exists_dt_of_le room (by norm_num at bounded most ⊢; linarith) whole
  refine ⟨d, value, positive, ?_⟩
  -- Multiplied by the speed, each of the roundings is a bound in terms of the reach.
  have second := scaled_le most moving slow
  have third := scaled_le least moving slow
  have fit : t * M ≤ r * M := by gcongr
  have extra : s * M ≤ 0.00100001 * 10 := by gcongr
  norm_num at first second third extra ⊢
  linarith

theorem le_quotient {t r w s : ℝ} {x y z : Float32} (count : HasValue x t) (room : HasValue y r)
    (quotient : HasValue z w) (sum : Rounds (w + s) y) (positive : 0 < s) (short : s ≤ 0.00100001)
    (many : 32769 ≤ t) (within : t ≤ r) : t ≤ w := by
  by_contra beyond
  have apart : w < r := (not_le.mp beyond).trans_le within
  have middle := sum.middle_le room quotient apart
  -- Where the numbers are farther apart than twice the summand, it is lost; below that no tick is as long.
  rcases le_or_gt (2 ^ (15 : Int)) w with large | small
  · have gap := quotient.add_place_le count large (not_le.mp beyond)
    norm_num at gap
    linarith
  · norm_num at small
    linarith

theorem exists_dt_of_far (speed : HasValue c.maxSpeed M) (moving : 0 < M) (slow : M ≤ 10)
    (reach : HasValue c.reach R) (far : 330 ≤ R) (few : R / M ≤ 2 ^ (100 : Int))
    (fits : tick.toNat ≤ c.room.toUInt64.toNat) :
    ∃ d, HasValue (tick.toFloat32 / 1000) d ∧ 0 ≤ d ∧
      d * M ≤ R * (1 + 2⁻¹ ^ 24) ^ 3 + 2⁻¹ ^ 100 := by
  -- A short tick does not get far at any speed, and a long one is counted where the summand is lost.
  rcases le_or_gt tick.toNat 32769 with brief | long
  · obtain ⟨t, d, -, value, positive, within, least⟩ :=
      exists_dt_of_le hasValue_many (by norm_num) (by exact_mod_cast brief)
    refine ⟨d, value, positive, ?_⟩
    have distance : d * M ≤ 33 * 10 := by
      have seconds : d ≤ 33 := by
        norm_num at least ⊢
        linarith
      gcongr
    norm_num at distance ⊢
    linarith
  · obtain ⟨s, summand, low, high⟩ := exists_summand
    obtain ⟨w, quotient, nonneg, bounded, first⟩ :=
      exists_quotient speed moving slow reach (by linarith) few
    have sum := quotient.add summand
    obtain ⟨r, room, nonneg', most⟩ := sum.exists_le (by positivity)
      (by norm_num at bounded ⊢; linarith)
    have whole : (tick.toNat : ℝ) ≤ r := by
      refine le_trans ?_ (toNat_toUInt64_le room nonneg')
      exact_mod_cast fits
    obtain ⟨t, d, count, value, positive, within, least⟩ :=
      exists_dt_of_le room (by norm_num at bounded most ⊢; linarith) whole
    have many : 32769 ≤ t := by
      refine (hasValue_many.le_iff count).mp ((rounds_toFloat32 tick).ge_of_le hasValue_many ?_)
      exact_mod_cast long.le
    have fit := le_quotient count room quotient sum low high many within
    refine ⟨d, value, positive, ?_⟩
    have second := scaled_le least moving slow
    have third : t * M ≤ w * M := by gcongr
    norm_num at first second ⊢
    linarith

theorem exists_dt (tick : UInt64) :
    ∃ d, HasValue (tick.toFloat32 / 1000) d ∧ 0 ≤ d ∧ d ≤ 2 ^ (60 : Int) := by
  have count : (tick.toNat : ℝ) ≤ 2 ^ (64 : Int) := by
    have bits : tick.toNat ≤ 2 ^ 64 := (UInt64.toNat_lt tick).le
    exact_mod_cast bits
  obtain ⟨top, bounded⟩ := exists_hasValue_two_pow (k := 64) (by decide) (by decide)
  obtain ⟨t, value, nonneg, most⟩ :=
    (rounds_toFloat32 tick).exists_value hasValue_zero bounded (Nat.cast_nonneg _) count
  obtain ⟨d, value', nonneg', most'⟩ :=
    (value.div hasValue_thousand (by norm_num)).exists_le (by positivity)
      (by norm_num at most ⊢; linarith)
  refine ⟨d, value', nonneg', ?_⟩
  norm_num at most most' ⊢
  linarith

@[simp] theorem dt_shortest (c : SimConfig) : c.shortest.dt = 0.001 := by
  have second : (1 : UInt64).toFloat32 / 1000 = 0.001 := by decide +kernel
  exact second

/-- A tick that fits, or the shortest one when the reach is not small, covers the reach at most, up to the
roundings; there are fewer of them when the reach is large. -/
theorem exists_dt_le (speed : HasValue c.maxSpeed M) (moving : 0 < M) (slow : M ≤ 10)
    (reach : HasValue c.reach R) (apart : 0 < R)
    (fits : c.tickRateMs.toNat ≤ c.room.toUInt64.toNat ∨ c.tickRateMs = 1 ∧ 1 ≤ R) :
    ∃ d, HasValue c.dt d ∧ 0 ≤ d ∧ d ≤ 2 ^ (60 : Int) ∧
      d * M ≤ R * (1 + 2⁻¹ ^ 24) ^ 4 + 0.0000101 ∧
      (330 ≤ R → d * M ≤ R * (1 + 2⁻¹ ^ 24) ^ 3 + 2⁻¹ ^ 100) := by
  obtain ⟨d, value, nonneg, bounded⟩ := exists_dt c.tickRateMs
  refine ⟨d, value, nonneg, bounded, ?_⟩
  rcases le_or_gt (R / M) (2 ^ (100 : Int)) with few | many
  · rcases fits with fits | ⟨one, far⟩
    · constructor
      · obtain ⟨d', value', -, most⟩ := exists_dt_of_fits speed moving slow reach apart few fits
        rwa [value.eq value']
      · intro far
        obtain ⟨d', value', -, most⟩ := exists_dt_of_far speed moving slow reach far few fits
        rwa [value.eq value']
    · obtain ⟨s, value', -, most⟩ := exists_summand
      -- At ten tiles per second a millisecond covers a hundredth of a tile.
      have same : c.dt = 0.001 := by
        rw [← dt_shortest c, dt, one]
        rfl
      have equal : d = s := HasValue.eq (same ▸ value) value'
      have covered : d * M ≤ 0.00100001 * 10 := by
        rw [equal]
        gcongr
      norm_num at covered ⊢
      constructor <;> intros <;> linarith
  · -- The speed is so small that no tick is too long.
    have small : M * 2 ^ (100 : Int) < R := by
      rw [lt_div_iff₀ moving] at many
      linarith
    have covered : d * M ≤ 2 ^ (60 : Int) * M := by gcongr
    norm_num at small covered ⊢
    constructor <;> intros <;> linarith

theorem distance_small {d σ : ℝ} (bounded : d ≤ 2 ^ (60 : Int)) (forward : 0 ≤ σ) (slow : σ ≤ 10) :
    d * σ ≤ 2 ^ (127 : Int) := by
  have product : d * σ ≤ 2 ^ (60 : Int) * 10 := by gcongr
  norm_num at product ⊢
  linarith

theorem millisecond_small {s σ : ℝ} (short : s ≤ 0.00100001) (forward : 0 ≤ σ) (slow : σ ≤ 10) :
    s * σ ≤ 2 ^ (127 : Int) :=
  distance_small (by norm_num; linarith) forward slow

theorem le_add_slack {d σ : ℝ} {speed : Float32} (step : HasValue c.dt d) (velocity : HasValue speed σ)
    (forward : 0 ≤ d * σ) (reach : HasValue c.reach R) (apart : 0 < R)
    (small : d * σ ≤ 2 ^ (127 : Int)) (covered : d * σ ≤ R + 0.00009999) : c.StaysInReach speed := by
  obtain ⟨s, slack, enough⟩ := exists_slack
  -- Both sides are rounded, and rounding keeps their order.
  have product := step.mul velocity
  have sum := reach.add slack
  obtain ⟨w, value, -, -⟩ := product.exists_le forward small
  rcases value_or_infinite_of_nonneg (sum.ge_of_le hasValue_zero (by linarith)) with
    ⟨w', value', -⟩ | infinite
  · exact (value.le_iff value').mpr (product.le_of_lt sum value value' (by linarith))
  · exact le_of_lt (value.lt_infinity infinite)

/-- From 512 on the slack is rounded up to two last places of the reach, and the distance is rounded to no
more as long as it is less than two and a half of them beyond the reach. -/
theorem le_add_slack_of_far {d σ : ℝ} {speed : Float32} (step : HasValue c.dt d)
    (velocity : HasValue speed σ) (forward : 0 ≤ d * σ) (reach : HasValue c.reach R)
    (far : 512 ≤ R) (near : R ≤ 853) (covered : d * σ < R + 5 / 2 * 2 ^ (-14 : Int)) :
    c.StaysInReach speed := by
  obtain ⟨s, slack, enough⟩ := exists_slack
  have product := step.mul velocity
  have sum := reach.add slack
  have large : (2 : ℝ) ^ (9 : Int) ≤ R := by
    norm_num
    linarith
  obtain ⟨z, goal⟩ := reach.exists_add_places large (by decide) (by decide) 2
    (by norm_num; linarith)
  have beyond : (2 : ℝ) ^ (9 : Int) ≤ R + (2 : Nat) * 2 ^ ((9 : Int) - 23) := by
    norm_num at large ⊢
    linarith
  obtain ⟨w, value, -, -⟩ := product.exists_le forward (by norm_num at covered ⊢; linarith)
  -- The next number beyond is a whole place farther, so the distance would be past the middle.
  have below : w ≤ R + (2 : Nat) * 2 ^ ((9 : Int) - 23) := by
    by_contra more
    have gap := goal.add_place_le value beyond (not_le.mp more)
    have middle := product.middle_le value goal (not_le.mp more)
    norm_num at covered gap middle
    linarith
  refine value.le_of_le goal below ?_
  rcases value_or_infinite_of_nonneg (sum.ge_of_le hasValue_zero (by linarith)) with
    ⟨w', value', -⟩ | infinite
  · have least := (reach.le_iff value').mp (sum.ge_of_le reach (by linarith))
    refine (goal.le_iff value').mpr (not_lt.mp fun less => ?_)
    -- One place less would be rounded down by more than a half: the slack has more than one and a half.
    have gap := value'.add_place_le goal (large.trans least) less
    have middle := sum.le_middle value' goal less
    norm_num at gap middle
    linarith
  · exact le_of_lt (goal.lt_infinity infinite)

/-- Up to a reach of 853 the roundings stay within the slack. -/
theorem stays_of_covered {d σ : ℝ} {speed : Float32} (step : HasValue c.dt d)
    (velocity : HasValue speed σ) (forward : 0 ≤ d * σ) (reach : HasValue c.reach R) (apart : 0 < R)
    (near : R ≤ 853) (small : d * σ ≤ 2 ^ (127 : Int))
    (covered : d * σ ≤ R * (1 + 2⁻¹ ^ 24) ^ 4 + 0.0000101)
    (coveredFar : 330 ≤ R → d * σ ≤ R * (1 + 2⁻¹ ^ 24) ^ 3 + 2⁻¹ ^ 100) :
    c.StaysInReach speed := by
  -- What the roundings add grows with the reach: from 330 on one of them less is counted, and from 512 on the
  -- last places of the reach decide.
  rcases le_or_gt 330 R with far | close
  · have few := coveredFar far
    rcases le_or_gt 512 R with farther | closer
    · refine le_add_slack_of_far step velocity forward reach farther near ?_
      norm_num at few ⊢
      linarith
    · refine le_add_slack step velocity forward reach apart small ?_
      norm_num at few ⊢
      linarith
  · refine le_add_slack step velocity forward reach apart small ?_
    norm_num at covered ⊢
    linarith

/-- The reach with a part of it and the slack added. -/
def stretched (c : SimConfig) : Float32 := c.reach * 1.0000005 + 1e-4

theorem exists_factor : ∃ f, HasValue 1.0000005 f ∧ 1 + 8 * 2⁻¹ ^ 24 ≤ f :=
  ⟨_, hasValue_of_unpack (m := 8388612) (e := -23) (by decide) rfl rfl, by norm_num⟩

theorem le_stretched {d σ : ℝ} {speed : Float32} (step : HasValue c.dt d) (nonneg : 0 ≤ d)
    (velocity : HasValue speed σ) (forward : 0 ≤ σ) (reach : HasValue c.reach R) (apart : 0 < R)
    (small : d * σ ≤ 2 ^ (127 : Int)) (covered : d * σ ≤ R * (1 + 2⁻¹ ^ 24) ^ 4 + 0.0000101) :
    c.dt * speed ≤ c.stretched := by
  obtain ⟨f, factor, large⟩ := exists_factor
  obtain ⟨s, slack, enough⟩ := exists_slack
  obtain ⟨w, value, -, most⟩ := (step.mul velocity).exists_le (by positivity) small
  have rounds := reach.mul factor
  have positive : 0 ≤ R * f := mul_nonneg apart.le (le_trans (by positivity) large)
  rcases value_or_infinite_of_nonneg (rounds.ge_of_le hasValue_zero positive) with
    ⟨p, product, -⟩ | infinite
  · -- The factor makes up for all roundings, its own among them.
    have near := (abs_le.mp (rounds.near product)).1
    have stretch : R * (1 + 8 * 2⁻¹ ^ 24) ≤ R * f := by gcongr
    rw [abs_of_nonneg positive] at near
    refine (product.add slack).ge_of_le value ?_
    norm_num at near most covered stretch ⊢
    linarith
  · exact le_of_lt (value.lt_infinity (slack.infinite_add infinite))

theorem reach_cases (player : 0 < c.playerHalfExtent) (trigger : 0 < c.triggerHalfExtent) :
    (∃ R, HasValue c.reach R ∧ 0 < R) ∨ c.reach.toModel.unpack = .infinity .positive := by
  rcases value_or_infinite_of_nonneg (le_of_lt player) with ⟨p, value, -⟩ | infinite
  · have pos := (hasValue_zero.lt_iff value).mp player
    rcases value_or_infinite_of_nonneg (le_of_lt trigger) with ⟨q, value', nonneg⟩ | infinite'
    · have above := (value.add value').ge_of_le value (le_add_of_nonneg_right nonneg)
      have rounds := (value.add value').ge_of_le hasValue_zero (by linarith)
      rcases value_or_infinite_of_nonneg rounds with ⟨R, sum, -⟩ | infinite
      · exact .inl ⟨R, sum, pos.trans_le ((value.le_iff sum).mp above)⟩
      · exact .inr infinite
    · exact .inr (value.add_infinite infinite')
  · rcases value_or_infinite_of_nonneg (le_of_lt trigger) with ⟨q, value', -⟩ | infinite'
    · exact .inr (value'.infinite_add infinite)
    · exact .inr (infinite_add_infinite infinite infinite')

theorem le_infinite {d σ : ℝ} {speed : Float32} (step : HasValue c.dt d) (nonneg : 0 ≤ d)
    (velocity : HasValue speed σ) (forward : 0 ≤ σ)
    (reach : c.reach.toModel.unpack = .infinity .positive) (small : d * σ ≤ 2 ^ (127 : Int)) :
    c.StaysInReach speed ∧ c.dt * speed ≤ c.stretched := by
  obtain ⟨w, value, -, -⟩ := (step.mul velocity).exists_le (by positivity) small
  obtain ⟨s, slack, -⟩ := exists_slack
  have product : (c.reach * 1.0000005).toModel.unpack = .infinity .positive := by
    have same : (c.reach * 1.0000005).toModel.unpack = (Float32.Model.pack
      (UnpackedFloat.mul Format.binary32 c.reach.toModel.unpack
        (1.0000005 : Float32).toModel.unpack)).unpack := rfl
    rw [same, reach]
    exact unpack_pack_infinity .positive
  exact ⟨le_of_lt (value.lt_infinity (slack.infinite_add reach)),
    le_of_lt (value.lt_infinity (slack.infinite_add product))⟩

/-! ## All speeds -/

theorem StaysInReach.of_le {d σ : ℝ} {speed : Float32} (stays : c.StaysInReach c.maxSpeed)
    (step : HasValue c.dt d) (nonneg : 0 ≤ d) (small : d * M ≤ 2 ^ (127 : Int))
    (top : HasValue c.maxSpeed M) (velocity : HasValue speed σ) (forward : 0 ≤ σ)
    (within : σ ≤ M) : c.StaysInReach speed := by
  have less : d * σ ≤ d * M := by gcongr
  obtain ⟨p, first, -, -⟩ := (step.mul velocity).exists_le (by positivity) (less.trans small)
  obtain ⟨q, second, -, -⟩ := (step.mul top).exists_le ((mul_nonneg nonneg forward).trans less) small
  have ordered := step.mul_le_mul nonneg velocity top within first second
  exact first.le_of_le second ordered stays

theorem longestTickMs_of_pos {maxSpeed : Float32} (moving : 0 < maxSpeed) (reach : Float32) :
    longestTickMs maxSpeed reach = max 1 (reach / maxSpeed * 1000 + 0.001).toUInt64 :=
  if_neg (not_le_of_lt moving)

theorem ranged_tick_fits (moving : 0 < c.ranged.maxSpeed) :
    c.ranged.tickRateMs.toNat ≤ c.ranged.room.toUInt64.toNat ∨ c.ranged.tickRateMs = 1 := by
  have tick := toNat_ranged_tick c
  have longest := congrArg UInt64.toNat (longestTickMs_of_pos moving c.reach)
  have same : c.ranged.room = c.reach / c.ranged.maxSpeed * 1000 + 0.001 := rfl
  have one : (1 : UInt64).toNat = 1 := rfl
  rw [toNat_max, one, ← same] at longest
  rw [longest] at tick
  rw [← UInt64.toNat_inj, one]
  omega

theorem shortest_stays (moving : 0 < c.maxSpeed) (slow : c.maxSpeed ≤ Player.topSpeed)
    (player : 0 < c.playerHalfExtent) (trigger : 0 < c.triggerHalfExtent)
    (fits : 1 ≤ c.room.toUInt64.toNat) : c.shortest.StaysInReach c.maxSpeed := by
  obtain ⟨M, top, -, most⟩ := exists_value_of_le hasValue_ten (le_of_lt moving) slow
  have pos : 0 < M := (hasValue_zero.lt_iff top).mp moving
  obtain ⟨s, second, positive, short⟩ := exists_summand
  have step : HasValue c.shortest.dt s := (dt_shortest c).symm ▸ second
  have small := millisecond_small short pos.le most
  rcases reach_cases player trigger with ⟨R, reach, apart⟩ | infinite
  · have same : HasValue c.shortest.reach R := reach
    refine le_add_slack step top (by positivity) same apart small ?_
    rcases le_or_gt R 1 with near | far
    · obtain ⟨d, step', -, -, covered, -⟩ := exists_dt_le (c := c.shortest) top pos most same apart
        (.inl fits)
      rw [← step.eq step'] at covered
      norm_num at covered ⊢
      linarith
    · -- With a reach of one or more a millisecond is short at any speed.
      have distance : s * M ≤ 0.00100001 * 10 := by gcongr
      norm_num at distance ⊢
      linarith
  · exact (le_infinite step positive.le top pos.le infinite small).1

theorem stays_of_shortest {speed : Float32} (moving : 0 < c.maxSpeed)
    (slow : c.maxSpeed ≤ Player.topSpeed) (player : 0 < c.playerHalfExtent)
    (trigger : 0 < c.triggerHalfExtent)
    (fits : c.tickRateMs.toNat ≤ c.room.toUInt64.toNat ∨ c.tickRateMs = 1)
    (stays : c.shortest.StaysInReach c.maxSpeed) (forward : 0 ≤ speed)
    (within : speed ≤ c.maxSpeed) :
    (c.reach ≤ 853 → c.StaysInReach speed) ∧ (¬ c.reach ≤ 853 → c.dt * speed ≤ c.stretched) := by
  obtain ⟨M, top, -, most⟩ := exists_value_of_le hasValue_ten (le_of_lt moving) slow
  have pos : 0 < M := (hasValue_zero.lt_iff top).mp moving
  obtain ⟨σ, velocity, nonneg, less⟩ := exists_value_of_le top forward within
  rcases reach_cases player trigger with ⟨R, reach, apart⟩ | infinite
  · rw [reach.le_iff hasValue_eight_hundred_fifty_three]
    -- A tick that does not fit is a millisecond with a reach below one. Of it nothing is known but that it
    -- stays within the reach at the greatest speed, and so at any lower one.
    by_cases fit : c.tickRateMs.toNat ≤ c.room.toUInt64.toNat ∨ c.tickRateMs = 1 ∧ 1 ≤ R
    · obtain ⟨d, step, nonneg', bounded, covered, coveredFar⟩ :=
        exists_dt_le top pos most reach apart fit
      have distance : d * σ ≤ d * M := by gcongr
      have small := distance_small bounded nonneg (less.trans most)
      refine ⟨fun near => ?_, fun far => ?_⟩
      · exact stays_of_covered step velocity (by positivity) reach apart near small
          (distance.trans covered) fun far => distance.trans (coveredFar far)
      · exact le_stretched step nonneg' velocity nonneg reach apart small (distance.trans covered)
    · obtain ⟨unfit, short⟩ := not_or.mp fit
      have one : c.tickRateMs = 1 := fits.resolve_left unfit
      have close : R < 1 := not_le.mp fun far => short ⟨one, far⟩
      have same : c.shortest = c := by
        rw [shortest, ← one]
      obtain ⟨s, second, positive, brief⟩ := exists_summand
      have step : HasValue c.dt s := by
        rw [← same, dt_shortest]
        exact second
      have small := millisecond_small brief pos.le most
      rw [same] at stays
      refine ⟨fun _ => stays.of_le step positive.le small top velocity nonneg less, fun far => ?_⟩
      exact absurd (by linarith) far
  · obtain ⟨d, step, nonneg', bounded⟩ := exists_dt c.tickRateMs
    have small := distance_small bounded nonneg (less.trans most)
    have covered := le_infinite step nonneg' velocity nonneg infinite small
    exact ⟨fun _ => covered.1, fun _ => covered.2⟩

end SimConfig

namespace ConfigFile

/-- With a loaded configuration, one tick at any speed takes the player no farther than the reach, unless
not even a millisecond does; then a tick is a millisecond. A large reach is exceeded by no more than a
part of it. -/
theorem step_stays_in_reach {text : String} {files : FileNode} {dirs : List Path} {config : Config}
    {warnings : List ConfigWarning}
    (loads : (parse text).1.resolve files dirs = .ok (config, warnings))
    (moving : 0 < config.sim.maxSpeed) (player : 0 < config.sim.playerHalfExtent)
    (trigger : 0 < config.sim.triggerHalfExtent) :
    (¬ config.sim.shortest.StaysInReach config.sim.maxSpeed → config.sim.tickRateMs = 1) ∧
    (config.sim.shortest.StaysInReach config.sim.maxSpeed →
      ∀ speed, 0 ≤ speed → speed ≤ config.sim.maxSpeed →
        (config.sim.reach ≤ 853 → config.sim.StaysInReach speed) ∧
        (¬ config.sim.reach ≤ 853 → config.sim.dt * speed ≤ config.sim.stretched)) := by
  obtain ⟨number, same⟩ := sim_of_resolve loads
  have slow := (SimConfig.ranged_maxSpeed number).2
  rw [same] at moving player trigger ⊢
  have fits := SimConfig.ranged_tick_fits moving
  constructor
  · intro strays
    by_contra long
    have least := (SimConfig.ranged_tick (parse text).1.sim).1
    have room := fits.resolve_right long
    rw [UInt64.le_iff_toNat_le] at least
    exact strays (SimConfig.shortest_stays moving slow player trigger (least.trans room))
  · intro stays speed forward within
    exact SimConfig.stays_of_shortest moving slow player trigger fits stays forward within

theorem long_tick_is_cut_to_the_reach : ∃ config warnings,
    (parse "[sim]\ntick_rate_ms = 500\n").1.resolve (.folder []) [] = .ok (config, warnings) ∧
      config.sim.tickRateMs = 35 ∧ config.sim.StaysInReach 10 := by
  have number : (parse "[sim]\ntick_rate_ms = 500\n").1.sim.maxSpeed.isNaN = false := by
    decide +kernel
  obtain ⟨config, warnings, loads, ranged⟩ := resolve_of_number number (.folder []) []
  have settings : config.sim.tickRateMs = 35 ∧ config.sim.maxSpeed = 10 ∧
      0 < config.sim.playerHalfExtent ∧ 0 < config.sim.triggerHalfExtent ∧
      config.sim.reach ≤ 853 := by
    rw [ranged]
    decide +kernel
  obtain ⟨tick, speed, player, trigger, near⟩ := settings
  have stays : config.sim.shortest.StaysInReach config.sim.maxSpeed := by
    rw [ranged]
    unfold SimConfig.StaysInReach
    decide +kernel
  have moving : 0 < config.sim.maxSpeed := by
    rw [speed]
    decide
  have within : 10 ≤ config.sim.maxSpeed := by
    rw [speed]
    decide
  obtain ⟨-, covers⟩ := step_stays_in_reach loads moving player trigger
  exact ⟨config, warnings, loads, tick, (covers stays 10 (by decide) within).1 near⟩

def tinyExtents : String :=
  "[sim]\nplayer_half_extent = 0.001\ntrigger_half_extent = 0.001\n"

def hugeExtents : String :=
  "[sim]\ntick_rate_ms = 600000\nmax_speed = 1.81751335\nplayer_half_extent = 954.0\n" ++
    "trigger_half_extent = 0.726929\n"

def Overtakes (text : String) : Prop :=
  ∃ config warnings, (parse text).1.resolve (.folder []) [] = .ok (config, warnings) ∧
    0 < config.sim.maxSpeed ∧ 0 < config.sim.playerHalfExtent ∧ 0 < config.sim.triggerHalfExtent ∧
    ¬ config.sim.dt * config.sim.maxSpeed ≤
      config.sim.playerHalfExtent + config.sim.triggerHalfExtent + 1e-4

theorem overtakes_of_ranged {text : String} (number : (parse text).1.sim.maxSpeed.isNaN = false)
    (passes : let c := (parse text).1.sim.ranged
      0 < c.maxSpeed ∧ 0 < c.playerHalfExtent ∧ 0 < c.triggerHalfExtent ∧
        ¬ c.dt * c.maxSpeed ≤ c.playerHalfExtent + c.triggerHalfExtent + 1e-4) :
    Overtakes text := by
  obtain ⟨config, warnings, loads, ranged⟩ := resolve_of_number number (.folder []) []
  exact ⟨config, warnings, loads, ranged ▸ passes⟩

/-- Extents may be too small for any tick, or so large that the roundings exceed the slack. -/
theorem some_extents_are_overtaken : Overtakes tinyExtents ∧ Overtakes hugeExtents := by
  constructor
  · exact overtakes_of_ranged (by decide +kernel) (by decide +kernel)
  · exact overtakes_of_ranged (by decide +kernel) (by decide +kernel)

end ConfigFile
end Tilewalk
