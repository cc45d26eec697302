import Tilewalk.Config.Search
import Tilewalk.Proofs.Number.Order

/-! The settings that loading gives. The limits on the speeds pass on what is not a number: as the greatest
speed it ends the loading, and as the initial speed it stays. Whatever else a text asks for is brought
into range. -/

set_option autoImplicit false

namespace Tilewalk
namespace SimConfig

variable {c : SimConfig}

/-- The settings in their ranges, when the greatest speed is a number. -/
def ranged (c : SimConfig) : SimConfig :=
  let maxSpeed := Binary32.clamp c.maxSpeed 0 Player.topSpeed
  { c with
    tickRateMs := min (max c.tickRateMs 1) (longestTickMs maxSpeed c.reach)
    initialSpeed := Binary32.clamp c.initialSpeed 0 maxSpeed
    maxSpeed := maxSpeed }

@[simp] theorem isNaN_maxSpeed (c : SimConfig) :
    (Binary32.clamp c.maxSpeed 0 Player.topSpeed).isNaN = c.maxSpeed.isNaN :=
  Binary32.isNaN_clamp (by decide) (by decide)

theorem legalize_of_nan (nan : c.maxSpeed.isNaN = true) : c.legalize = .error .speedLimit := by
  have limit := (isNaN_maxSpeed c).trans nan
  simp only [legalize, limit, if_true]

theorem legalize_of_number (number : c.maxSpeed.isNaN = false) :
    ∃ warnings, c.legalize = .ok (c.ranged, warnings) := by
  have limit := (isNaN_maxSpeed c).trans number
  simp only [legalize, limit, Bool.false_eq_true, if_false]
  exact ⟨_, rfl⟩

theorem ranged_maxSpeed (number : c.maxSpeed.isNaN = false) :
    0 ≤ c.ranged.maxSpeed ∧ c.ranged.maxSpeed ≤ Player.topSpeed :=
  Binary32.clamp_bounds number (by decide)

theorem ranged_initialSpeed (number : c.maxSpeed.isNaN = false)
    (initial : c.initialSpeed.isNaN = false) :
    0 ≤ c.ranged.initialSpeed ∧ c.ranged.initialSpeed ≤ c.ranged.maxSpeed :=
  Binary32.clamp_bounds initial (ranged_maxSpeed number).1

theorem clamp_ranged_initialSpeed (number : c.maxSpeed.isNaN = false) :
    Binary32.clamp c.ranged.initialSpeed 0 (Binary32.clamp c.ranged.maxSpeed 0 Player.topSpeed)
      = c.ranged.initialSpeed := by
  have limit : Binary32.clamp c.ranged.maxSpeed 0 Player.topSpeed = c.ranged.maxSpeed :=
    Binary32.clamp_clamp _ (by decide)
  rw [limit]
  exact Binary32.clamp_clamp _ (ranged_maxSpeed number).1

theorem isNaN_ranged_initialSpeed (number : c.maxSpeed.isNaN = false) :
    c.ranged.initialSpeed.isNaN = c.initialSpeed.isNaN :=
  Binary32.isNaN_clamp (by decide) ((isNaN_maxSpeed c).trans number)

@[simp] theorem toNat_max (a b : UInt64) : (max a b).toNat = max a.toNat b.toNat := by
  change (if a ≤ b then b else a).toNat = _
  split
  · next less =>
    rw [UInt64.le_iff_toNat_le] at less
    omega
  · next more =>
    rw [UInt64.le_iff_toNat_le] at more
    omega

@[simp] theorem toNat_min (a b : UInt64) : (min a b).toNat = min a.toNat b.toNat := by
  change (if a ≤ b then a else b).toNat = _
  split
  · next less =>
    rw [UInt64.le_iff_toNat_le] at less
    omega
  · next more =>
    rw [UInt64.le_iff_toNat_le] at more
    omega

theorem one_le_longestTickMs (maxSpeed reach : Float32) :
    1 ≤ (longestTickMs maxSpeed reach).toNat := by
  unfold longestTickMs
  split
  · decide
  · simp only [toNat_max]
    exact Nat.le_max_left 1 _

theorem toNat_ranged_tick (c : SimConfig) : c.ranged.tickRateMs.toNat
    = min (max 1 c.tickRateMs.toNat) (longestTickMs c.ranged.maxSpeed c.reach).toNat := by
  rw [Nat.max_comm]
  simp only [ranged, toNat_min, toNat_max]
  rfl

theorem ranged_tick (c : SimConfig) :
    1 ≤ c.ranged.tickRateMs ∧ c.ranged.tickRateMs ≤ max 1 c.tickRateMs := by
  have least := one_le_longestTickMs c.ranged.maxSpeed c.reach
  have same := toNat_ranged_tick c
  have one : (1 : UInt64).toNat = 1 := rfl
  rw [UInt64.le_iff_toNat_le, UInt64.le_iff_toNat_le, toNat_max, one, same]
  omega

end SimConfig

namespace ConfigFile

variable {file : ConfigFile} {files : FileNode} {dirs : List Path}

theorem resolve_of_nan (nan : file.sim.maxSpeed.isNaN = true) (files : FileNode) (dirs : List Path) :
    file.resolve files dirs = .error .speedLimit := by
  simp [resolve, SimConfig.legalize_of_nan nan, bind, Except.bind]

theorem resolve_of_number (number : file.sim.maxSpeed.isNaN = false) (files : FileNode)
    (dirs : List Path) : ∃ config warnings, file.resolve files dirs = .ok (config, warnings) ∧
      config.sim = file.sim.ranged := by
  obtain ⟨warnings, legalized⟩ := SimConfig.legalize_of_number number
  simp [resolve, legalized, bind, Except.bind, pure, Except.pure]

theorem sim_of_resolve {config : Config} {warnings : List ConfigWarning}
    (loads : file.resolve files dirs = .ok (config, warnings)) :
    file.sim.maxSpeed.isNaN = false ∧ config.sim = file.sim.ranged := by
  cases number : file.sim.maxSpeed.isNaN with
  | true =>
    rw [resolve_of_nan number] at loads
    cases loads
  | false =>
    obtain ⟨_, _, resolved, ranged⟩ := resolve_of_number number files dirs
    rw [resolved] at loads
    cases loads
    exact ⟨rfl, ranged⟩

/-- Loading faults when the greatest speed is not a number, and otherwise it gives a legal tick and a
legal greatest speed. The initial speed is legal as well when it is a number. -/
theorem resolve_legal_of_numbers (text : String) (files : FileNode) (dirs : List Path) :
    let file := (parse text).1
    (file.sim.maxSpeed.isNaN = true → file.resolve files dirs = .error .speedLimit) ∧
    (file.sim.maxSpeed.isNaN = false →
      ∃ config warnings, file.resolve files dirs = .ok (config, warnings) ∧
        0 ≤ config.sim.maxSpeed ∧ config.sim.maxSpeed ≤ Player.topSpeed ∧
        1 ≤ config.sim.tickRateMs ∧ config.sim.tickRateMs ≤ max 1 file.sim.tickRateMs ∧
        config.sim.initialSpeed.isNaN = file.sim.initialSpeed.isNaN ∧
        (file.sim.initialSpeed.isNaN = false →
          0 ≤ config.sim.initialSpeed ∧ config.sim.initialSpeed ≤ config.sim.maxSpeed)) := by
  intro file
  refine ⟨fun nan => resolve_of_nan nan files dirs, fun number => ?_⟩
  obtain ⟨config, warnings, resolved, ranged⟩ := resolve_of_number number files dirs
  refine ⟨config, warnings, resolved, ?_⟩
  obtain ⟨nonnegative, limited⟩ := SimConfig.ranged_maxSpeed number
  obtain ⟨positive, shortened⟩ := SimConfig.ranged_tick file.sim
  rw [ranged]
  exact ⟨nonnegative, limited, positive, shortened, SimConfig.isNaN_ranged_initialSpeed number,
    SimConfig.ranged_initialSpeed number⟩

/-- Not every text can be loaded, and not every one that loads has a legal initial speed. -/
theorem nan_speeds_break_loading :
    (parse "[sim]\nmax_speed = nan\n").1.resolve (.folder []) [] = .error .speedLimit ∧
    ∃ config warnings, (parse "[sim]\ninitial_speed = nan\n").1.resolve (.folder []) []
      = .ok (config, warnings) ∧ ¬ 0 ≤ config.sim.initialSpeed := by
  have nan : (parse "[sim]\nmax_speed = nan\n").1.sim.maxSpeed.isNaN = true := by decide +kernel
  refine ⟨resolve_of_nan nan _ _, ?_⟩
  have number : (parse "[sim]\ninitial_speed = nan\n").1.sim.maxSpeed.isNaN = false := by
    decide +kernel
  obtain ⟨config, warnings, resolved, ranged⟩ := resolve_of_number number (.folder []) []
  refine ⟨config, warnings, resolved, ?_⟩
  rw [ranged]
  decide +kernel

end ConfigFile
end Tilewalk
