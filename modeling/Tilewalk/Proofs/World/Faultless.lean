import Tilewalk.Proofs.Config.Legal
import Tilewalk.Proofs.Number.Arithmetic
import Tilewalk.Proofs.World.Coherence
import Tilewalk.Stage.Basic

/-! Runs without faults. The speed stays a real number of at most ten tiles per second, so the velocity in
the plane has components of that size, and the speed at which the player leaves the floor always has a
range of spins. -/

set_option autoImplicit false

namespace Tilewalk

open Binary32

def Slow (x : Float32) : Prop := ∃ v, HasValue x v ∧ |v| ≤ 10

theorem slow_zero : Slow 0 := ⟨0, hasValue_zero, by norm_num⟩

theorem slow_mul {x y : Float32} {u v : ℝ} (factor : HasValue x u) (small : |u| ≤ 1)
    (value : HasValue y v) (slow : |v| ≤ 10) : Slow (x * y) := by
  have product : |u * v| ≤ 10 := by
    calc |u * v| = |u| * |v| := abs_mul u v
      _ ≤ 1 * 10 := by gcongr
      _ = 10 := one_mul 10
  obtain ⟨low, high⟩ := abs_le.mp product
  obtain ⟨w, value', low', high'⟩ :=
    (factor.mul value).exists_value hasValue_ten.neg hasValue_ten low high
  exact ⟨w, value', abs_le.mpr ⟨low', high'⟩⟩

theorem Slow.exists_square {x : Float32} (slow : Slow x) :
    ∃ v, HasValue (x * x) v ∧ 0 ≤ v ∧ v ≤ 2 ^ (7 : Int) := by
  obtain ⟨v, value, small⟩ := slow
  obtain ⟨top, bounded⟩ := exists_hasValue_two_pow (k := 7) (by decide) (by decide)
  have square : v * v ≤ 100 := by
    obtain ⟨low, high⟩ := abs_le.mp small
    nlinarith
  exact (value.mul value).exists_value hasValue_zero bounded (mul_self_nonneg v)
    (by norm_num; linarith)

theorem Direction.exists_vector (d : Direction) :
    ∃ a b : ℝ, HasValue d.vector.x a ∧ |a| ≤ 1 ∧ HasValue d.vector.z b ∧ |b| ≤ 1 := by
  cases d with
  | up => exact ⟨0, 1, hasValue_zero, by norm_num, hasValue_one, by norm_num⟩
  | right => exact ⟨1, 0, hasValue_one, by norm_num, hasValue_zero, by norm_num⟩
  | down => exact ⟨0, -1, hasValue_zero, by norm_num, hasValue_one.neg, by norm_num⟩
  | left => exact ⟨-1, 0, hasValue_one.neg, by norm_num, hasValue_zero, by norm_num⟩

namespace Body

def Ambles (b : Body) : Prop := Slow b.velocity.x ∧ Slow b.velocity.z

theorem Ambles.integrate {b : Body} (ambles : b.Ambles) (dt gravity : Float32) :
    (b.integrate dt gravity).Ambles := by
  unfold Ambles Body.integrate accelerated
  split <;> exact ambles

theorem Ambles.exists_horizontalSpeed {b : Body} (ambles : b.Ambles) :
    ∃ v, HasValue b.horizontalSpeed v ∧ 0 ≤ v ∧ v ≤ 2 ^ (5 : Int) := by
  -- The squares are at most 100, so their sum is less than the square of 2 ^ 5 after each rounding.
  obtain ⟨p, across, nonneg₁, most₁⟩ := ambles.1.exists_square
  obtain ⟨q, none, nonneg₂, most₂⟩ := slow_zero.exists_square
  obtain ⟨r, along, nonneg₃, most₃⟩ := ambles.2.exists_square
  obtain ⟨s, first, nonneg₄, most₄⟩ :=
    across.exists_add none nonneg₁ nonneg₂ most₁ most₂ (by decide) (by decide)
  obtain ⟨t, second, nonneg₅, most₅⟩ :=
    first.exists_add along nonneg₄ nonneg₃ most₄ (most₃.trans (by norm_num)) (by decide)
      (by decide)
  obtain ⟨top, bounded⟩ := exists_hasValue_two_pow (k := 5) (by decide) (by decide)
  refine (second.sqrt nonneg₅).exists_value hasValue_zero bounded (Real.sqrt_nonneg t) ?_
  rw [Real.sqrt_le_iff]
  norm_num at most₅ ⊢
  linarith

end Body

/-! ## Spins -/

/-- There is a range of spins for every real number that is not too large. -/
theorem Tumble.usable_of_value {s : Float32} {v : ℝ} (value : HasValue s v) (nonneg : 0 ≤ v)
    (most : v ≤ 2 ^ (5 : Int)) : usable s = true := by
  have ordered : -s ≤ s := (value.neg.le_iff value).mpr (by linarith)
  obtain ⟨top, bounded⟩ := exists_hasValue_two_pow (k := 6) (by decide) (by decide)
  obtain ⟨w, distance, -, -⟩ := (value.sub value.neg).exists_value hasValue_zero bounded
    (by linarith) (by norm_num at most ⊢; linarith)
  simp [usable, ordered, distance.isFinite]

/-! ## Worlds -/

namespace World

/-- The speeds are real numbers of at most ten, and the player is slow in the plane. -/
structure Tame (w : World) : Prop where
  limit : 0 ≤ w.player.speedLimit ∧ w.player.speedLimit ≤ Player.topSpeed
  speed : 0 ≤ w.player.speed ∧ w.player.speed ≤ w.player.speedLimit
  ambles : w.player.body.Ambles

variable {w u : World} {c : Command} {events : List Event}

theorem Tame.exists_speed (tame : w.Tame) : ∃ v, HasValue w.player.speed v ∧ 0 ≤ v ∧ v ≤ 10 := by
  obtain ⟨l, limit, -, most⟩ := exists_value_of_le hasValue_ten tame.limit.1 tame.limit.2
  obtain ⟨v, value, nonneg, below⟩ := exists_value_of_le limit tame.speed.1 tame.speed.2
  exact ⟨v, value, nonneg, below.trans most⟩

theorem Tame.travel (tame : w.Tame) : w.player.travel.body.Ambles := by
  obtain ⟨v, value, nonneg, most⟩ := tame.exists_speed
  obtain ⟨a, b, across, small, along, small'⟩ := w.player.heading.exists_vector
  have slow : |v| ≤ 10 := by rwa [abs_of_nonneg nonneg]
  exact ⟨slow_mul across small value slow, slow_mul along small' value slow⟩

theorem Tame.replace (tame : w.Tame) {p : Player} (limit : p.speedLimit = w.player.speedLimit)
    (speed : p.speed = w.player.speed) (ambles : p.body.Ambles) : Tame { w with player := p } where
  limit := limit ▸ tame.limit
  speed := by
    rw [limit, speed]
    exact tame.speed
  ambles := ambles

theorem ambles_of_rest {b : Body} (rest : b.velocity = .zero) : b.Ambles := by
  rw [Body.Ambles, rest]
  exact ⟨slow_zero, slow_zero⟩

theorem Tame.moves (tame : w.Tame) (moves : Moves w events u) : u.Tame := by
  cases moves with
  | holds => exact tame.replace rfl rfl tame.ambles
  | stands => exact tame
  | travels => exact tame.replace rfl rfl tame.travel
  | falls => exact { tame with ambles := tame.ambles }

theorem Tame.acts {tile : TileId} {event : Event} (tame : w.Tame) (acts : Acts w tile event u) :
    u.Tame := by
  cases acts with
  | skips => exact tame.replace rfl rfl tame.ambles
  | turns => exact tame.replace rfl rfl tame.ambles
  | computes => exact { tame with }
  | passes => exact tame
  | fails => exact tame.replace rfl rfl tame.ambles
  | strands => exact tame
  | jumps => exact tame.replace rfl rfl (ambles_of_rest rfl)
  | completes => exact { tame with ambles := ambles_of_rest rfl }

theorem Tame.enters {tiles : List TileId} {acts : List (TileId × Event)} (tame : w.Tame)
    (enters : Enters w tiles acts u) : u.Tame := by
  induction enters with
  | done => exact tame
  | passed _ _ ih => exact ih tame
  | acted _ act _ ih => exact ih (tame.acts act)

theorem Tame.tickClock (tame : w.Tame) : w.tickClock.Tame := { tame with }

theorem Tame.integrate (tame : w.Tame) : w.integrate.Tame :=
  tame.replace rfl rfl (tame.ambles.integrate w.config.dt w.config.gravity)

theorem Tame.arrive (tame : w.Tame) : w.arrive.Tame := { tame with }

theorem Tame.handOver (tame : w.Tame) : w.handOver.2.Tame := { tame with }

theorem Tame.ticks (tame : w.Tame) (ticks : Ticks w events u) : u.Tame := by
  cases ticks with
  | mk moves enters => exact ((tame.tickClock.moves moves).integrate.arrive.enters enters).handOver

theorem Tame.restart (tame : w.Tame) (target : Phase) : (w.restart target).Tame where
  limit := tame.limit
  speed := tame.speed
  ambles := ambles_of_rest rfl

theorem Tame.setSpeed (tame : w.Tame) {v : Float32} (number : v.isNaN = false) :
    Tame { w with player := w.player.setSpeed v } where
  limit := tame.limit
  speed := clamp_bounds number tame.limit.1
  ambles := tame.ambles

end World

def Command.Numeric : Command → Prop
  | .changeSpeed delta => delta.isNaN = false
  | .setSpeed speed => speed.isNaN = false
  | .step | .changePhase _ | .edit _ _ => True

instance : DecidablePred Command.Numeric
  | .changeSpeed delta => inferInstanceAs (Decidable (delta.isNaN = false))
  | .setSpeed speed => inferInstanceAs (Decidable (speed.isNaN = false))
  | .step | .changePhase _ | .edit _ _ => .isTrue trivial

namespace World

variable {w u : World} {c : Command} {events : List Event}

theorem Tame.performs (tame : w.Tame) (numeric : c.Numeric) (performs : Performs w c events u) :
    u.Tame := by
  cases performs with
  | idles => exact tame
  | ticks _ ticks => exact tame.ticks ticks
  | stays => exact tame
  | restarts => exact tame.restart _
  | refuses => exact tame
  | edits => exact { tame with }
  | changesSpeed =>
    obtain ⟨v, value, -, -⟩ := tame.exists_speed
    exact tame.setSpeed (value.isNaN_add numeric)
  | setsSpeed => exact tame.setSpeed numeric

/-! ## No operation fails -/

/-- The only fault of a tick is a fall without a range of spins. -/
theorem Tame.exists_movement (tame : w.Tame) : ∃ moved u, w.resolveMovement = .ok (moved, u) := by
  -- A player that is held does not get to fall.
  by_cases free : w.player.cooldown ≤ 0
  · obtain ⟨v, speed, nonneg, most⟩ := tame.ambles.exists_horizontalSpeed
    have usable := Tumble.usable_of_value speed nonneg most
    cases moving : w.player.isMoving <;>
      cases floor : w.board.cells.hasFloorAt w.player.position <;>
      simp [resolveMovement, Player.tickCooldown, free, move, moving, floor, Player.startFall, usable,
        bind, Except.bind, pure, Except.pure]
  · exact ⟨_, _, resolveMovement_of_held free⟩

theorem Settled.exists_perform (settled : w.Settled) (tame : w.Tame) (c : Command) :
    ∃ events u, w.perform c = .ok (events, u) := by
  cases c with
  | step =>
    cases phase : w.phase with
    | editing => exact ⟨[], w, by simp [World.perform, step, phase]⟩
    | running =>
      obtain ⟨moved, v, movement⟩ := tame.tickClock.exists_movement
      have rests := (resolveMovement_moves movement).rests settled.rests
      obtain ⟨_, _, _, result⟩ := step_of_movement phase movement rests
      exact ⟨_, _, result⟩
  | changePhase => exact ⟨_, _, rfl⟩
  | edit tile e =>
    simp only [World.perform]
    split <;> exact ⟨_, _, rfl⟩
  | changeSpeed => exact ⟨_, _, rfl⟩
  | setSpeed => exact ⟨_, _, rfl⟩

theorem Settled.exists_run (settled : w.Settled) (tame : w.Tame) {commands : List Command}
    (numeric : ∀ c ∈ commands, c.Numeric) : ∃ told u, w.run commands = .ok (told, u) ∧ u.Tame := by
  -- Each operation hands on a tame world between two operations.
  induction commands generalizing w with
  | nil => exact ⟨[], w, rfl, tame⟩
  | cons c rest ih =>
    obtain ⟨head, tail⟩ := List.forall_mem_cons.mp numeric
    obtain ⟨events, v, first⟩ := settled.exists_perform tame c
    have next := tame.performs head (settled.performs first)
    obtain ⟨told, u, later, last⟩ := ih (settled.perform first) next tail
    exact ⟨events :: told, u, by simp [run, first, later, bind, Except.bind, pure, Except.pure], last⟩

theorem exists_opened {config : SimConfig} (board : Board) (spawn : Pose) (words : WordSource)
    (limit : config.maxSpeed.isNaN = false) : ∃ w, opened board spawn config words = .ok w := by
  have number := (SimConfig.isNaN_maxSpeed config).trans limit
  simp only [opened, Player.spawned, number, bind, Except.bind, pure, Except.pure,
    Bool.false_eq_true, if_false]
  exact ⟨_, rfl⟩

theorem tame_opened {board : Board} {spawn : Pose} {config : SimConfig} {words : WordSource}
    (limit : config.maxSpeed.isNaN = false) (speed : config.initialSpeed.isNaN = false)
    (made : opened board spawn config words = .ok w) : w.Tame := by
  obtain ⟨p, player, rfl⟩ := opened_eq_ok made
  cases Player.eq_of_spawned player
  have bounded := clamp_bounds limit (show (0 : Float32) ≤ Player.topSpeed by decide)
  exact
    { limit := bounded
      speed := clamp_bounds speed bounded.1
      ambles := ambles_of_rest rfl }

/-- With a loaded configuration whose initial speed is a number, operations that name only numbers do
not fail, on any board. Wherever they lead, speeds have a range and so have the spins of a fall. -/
theorem plays_without_fault {text : String} {files : FileNode} {dirs : List Path} {config : Config}
    {warnings : List ConfigWarning}
    (loads : (ConfigFile.parse text).1.resolve files dirs = .ok (config, warnings))
    (speed : config.sim.initialSpeed.isNaN = false) (board : Board) (spawn : Pose)
    (words : WordSource) {commands : List Command} (numeric : ∀ c ∈ commands, c.Numeric) :
    ∃ told w, play board spawn config.sim words commands = .ok (told, w) ∧
      0 ≤ w.player.speedLimit ∧
      let s := w.player.body.horizontalSpeed
      s.isFinite = true ∧ (s + s).isFinite = true ∧ Tumble.usable s = true := by
  obtain ⟨number, same⟩ := ConfigFile.sim_of_resolve loads
  have limit : config.sim.maxSpeed.isNaN = false := by
    rw [same]
    exact (SimConfig.isNaN_maxSpeed _).trans number
  obtain ⟨start, made⟩ := exists_opened board spawn words limit
  obtain ⟨told, w, ran, tame⟩ :=
    (settled_opened made).exists_run (tame_opened limit speed made) numeric
  obtain ⟨v, value, nonneg, most⟩ := tame.ambles.exists_horizontalSpeed
  obtain ⟨_, double, -, -⟩ :=
    value.exists_add value nonneg nonneg most most (by decide) (by decide)
  exact ⟨told, w, by simp [play, made, ran, bind, Except.bind], tame.limit.1, value.isFinite,
    double.isFinite, Tumble.usable_of_value value nonneg most⟩

def holed : StageFile where
  name := "hole"
  description := ""
  map := [[0, 1], [2, 1]]
  editable := []
  gems := []
  gates := []

def fullSpeed : String := "[sim]\ninitial_speed = 10\n"

def walk : List Command :=
  .changePhase .running :: .changeSpeed (-0.05) :: List.replicate 5 .step

theorem walk_ends_in_a_fall : ∃ config warnings stage,
    (ConfigFile.parse fullSpeed).1.resolve (.folder []) [] = .ok (config, warnings) ∧
    holed.build = .ok stage ∧
    ∃ told w, play stage.board stage.spawn config.sim (.stepping 0 1) walk = .ok (told, w) ∧
      w.player.isFalling = true ∧ Tumble.usable w.player.body.horizontalSpeed = true := by
  have number : (ConfigFile.parse fullSpeed).1.sim.maxSpeed.isNaN = false := by decide +kernel
  obtain ⟨config, warnings, loads, ranged⟩ := ConfigFile.resolve_of_number number (.folder []) []
  have speed : config.sim.initialSpeed.isNaN = false := by
    rw [ranged]
    decide +kernel
  have falls : holed.build.toOption.any (fun stage =>
      (play stage.board stage.spawn (ConfigFile.parse fullSpeed).1.sim.ranged (.stepping 0 1)
        walk).toOption.any (·.2.player.isFalling)) = true := by
    decide +kernel
  obtain ⟨stage, built, falls⟩ := exists_of_any falls
  have numeric : ∀ c ∈ walk, c.Numeric := by decide
  obtain ⟨told, w, played, -, -, -, usable⟩ :=
    plays_without_fault loads speed stage.board stage.spawn (.stepping 0 1) numeric
  rw [← ranged, played] at falls
  exact ⟨config, warnings, stage, loads, built, told, w, played, falls, usable⟩

def holedText : String := "name = \"hole\"\nmap = [[0, 1], [2, 1]]\n"

def nanSpeed : String := "[sim]\ninitial_speed = nan\n"

theorem holed_of_text : StageFile.parse holedText = .ok holed := by cbv

theorem nan_speed_fails_at_a_hole : ∃ config warnings stage notices,
    (ConfigFile.parse nanSpeed).1.resolve (.folder []) [] = .ok (config, warnings) ∧
    Stage.parse holedText = .ok (stage, notices) ∧
    play stage.board stage.spawn config.sim (.stepping 0 1) [.changePhase .running, .step, .step]
      = .error .spinRange := by
  have number : (ConfigFile.parse nanSpeed).1.sim.maxSpeed.isNaN = false := by decide +kernel
  obtain ⟨config, warnings, loads, ranged⟩ := ConfigFile.resolve_of_number number (.folder []) []
  have fails : holed.build.toOption.any (fun stage =>
      match play stage.board stage.spawn (ConfigFile.parse nanSpeed).1.sim.ranged (.stepping 0 1)
        [.changePhase .running, .step, .step] with
      | .error .spinRange => true
      | _ => false) = true := by
    decide +kernel
  obtain ⟨stage, built, fails⟩ := exists_of_any fails
  refine ⟨config, warnings, stage, holed.notices, loads, ?_, ?_⟩
  · simp [Stage.parse, holed_of_text, built, bind, Except.bind, pure, Except.pure]
  · rw [ranged]
    split at fails
    · assumption
    · cases fails

end World
end Tilewalk
