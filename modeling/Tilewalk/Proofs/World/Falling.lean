import Tilewalk.Proofs.World.Holding
import Tilewalk.Proofs.World.Mirror
import Tilewalk.Proofs.World.Outcome

/-! A fall from its first tick on. It begins with the velocity of the player's last step over floor, and
until the phase changes gravity is all that acts on the player: requests to move, changes of speed, edits
and further ticks neither end it nor bend it. -/

set_option autoImplicit false

namespace Tilewalk

/-- What is asked of a world: an operation, or that the player starts or stops travelling. -/
inductive Urge where
  | perform (c : Command)
  | setMoving (on : Bool)
deriving DecidableEq

namespace World

def urge (w : World) : Urge → Except Fault (List Event × World)
  | .perform c => w.perform c
  | .setMoving on => .ok ([], w.withPlayer (·.setMoving on))

def urgeAll (w : World) : List Urge → Except Fault (List (List Event) × World)
  | [] => .ok ([], w)
  | x :: rest => do
    let (events, w) ← w.urge x
    let (later, w) ← w.urgeAll rest
    return (events :: later, w)

/-- The player falls in the second world as it did in the first, with the pull of some ticks added to its
velocity and nothing else changed that moves, steers or counts. -/
structure FallsOn (ticks : Nat) (w u : World) : Prop where
  running : u.phase = .running
  falling : u.player.isFalling = true
  rests : u.player.isMoving = false
  gravity : u.player.body.usesGravity = true
  rotation : u.player.body.rotationLocked = false
  velocity : u.player.body.velocity = { w.player.body.velocity with
    y := (fun y => y - w.config.gravity * w.config.dt)^[ticks] w.player.body.velocity.y }
  spin : u.player.body.spin = w.player.body.spin
  heading : u.player.heading = w.player.heading
  registers : u.registers = w.registers
  skipArmed : u.player.skipArmed = w.player.skipArmed
  complete : u.complete = w.complete
  board : u.board = w.board
  config : u.config = w.config

variable {w v u : World}

theorem FallsOn.trans {first second : Nat} (before : FallsOn first w v)
    (after : FallsOn second v u) : FallsOn (first + second) w u where
  running := after.running
  falling := after.falling
  rests := after.rests
  gravity := after.gravity
  rotation := after.rotation
  -- The pulls of both spans are added one after another.
  velocity := by
    rw [after.velocity, before.config, before.velocity, Nat.add_comm, Function.iterate_add_apply]
  spin := after.spin.trans before.spin
  heading := after.heading.trans before.heading
  registers := after.registers.trans before.registers
  skipArmed := after.skipArmed.trans before.skipArmed
  complete := after.complete.trans before.complete
  board := after.board.trans before.board
  config := after.config.trans before.config

theorem Settled.fallsOn_self (settled : w.Settled) (falling : w.player.isFalling = true) :
    FallsOn 0 w w where
  running := settled.running (.inr falling)
  falling := falling
  rests := settled.rests_of_ended (.inl falling)
  gravity := settled.steady.gravity.trans falling
  rotation := by rw [settled.steady.locked, falling]; rfl
  velocity := rfl
  spin := rfl
  heading := rfl
  registers := rfl
  skipArmed := rfl
  complete := rfl
  board := rfl
  config := rfl

/-! ## One tick -/

theorem gems_of_drained (drained : w.registers.pending = []) :
    ∃ gems : List TileId, w.handOver.1 = gems.map .gemRestored :=
  ⟨_, by rw [handOver_eq, drained, List.map_nil, List.append_nil]⟩

theorem velocity_of_weight (weight : w.player.body.usesGravity = true) :
    w.integrate.arrive.handOver.2.player.body.velocity = { w.player.body.velocity with
      y := w.player.body.velocity.y - w.config.gravity * w.config.dt } := by
  simp [handOver, resolveTimers, drainChanges, arrive, integrate, Body.integrate, Body.accelerated,
    weight]

theorem Settled.resolveMovement_of_falling (settled : w.Settled)
    (falling : w.player.isFalling = true) : w.resolveMovement = .ok ([], w) := by
  have resting : w.player.isMoving = false := settled.rests_of_ended (.inl falling)
  -- Only a player on its way is ever held.
  have free : w.player.cooldown ≤ 0 := by
    by_contra kept
    obtain ⟨moving, -⟩ := settled.steady.held (settled.steady.held_of_not_free kept)
    cases resting.symm.trans moving
  simp [resolveMovement, Player.tickCooldown, free, move, resting]

/-- A tick of a fall carries the body on and restores gems, and that is all. -/
theorem Settled.step_of_falling (settled : w.Settled) (falling : w.player.isFalling = true) :
    ∃ gems : List TileId,
      w.step = .ok (gems.map .gemRestored, w.tickClock.integrate.arrive.handOver.2) := by
  have later : w.tickClock.Settled := { settled with }
  obtain ⟨acts, last, enters, stepped⟩ := step_of_movement (settled.running (.inr falling))
    (later.resolveMovement_of_falling falling) later.rests
  have resting : w.tickClock.integrate.arrive.player.isMoving = false :=
    settled.rests_of_ended (.inl falling)
  -- A player that does not move enters no tile with effect.
  obtain ⟨rfl, rfl⟩ := enters.eq_of_refused (admits_of_rests resting)
  obtain ⟨gems, handed⟩ := gems_of_drained (w := w.tickClock.integrate.arrive) settled.drained
  exact ⟨gems, handed ▸ stepped⟩

theorem Settled.fallsOn_step (settled : w.Settled) (falling : w.player.isFalling = true) :
    FallsOn 1 w w.tickClock.integrate.arrive.handOver.2 :=
  { settled.fallsOn_self falling with
    velocity := velocity_of_weight (w := w.tickClock) (settled.steady.gravity.trans falling)
    registers := drain_of_pending settled.drained }

/-! ## The tick that begins a fall -/

theorem Coherent.fallStarted_mem_iff (coherent : w.Coherent) {moved : List Event}
    (moves : Moves w moved v) :
    .fallStarted ∈ moved ↔ w.player.isFalling = false ∧ v.player.isFalling = true := by
  cases moves with
  | falls _ moving => exact iff_of_true List.mem_cons_self ⟨coherent.steady.grounded moving, rfl⟩
  -- Any other movement leaves the player as it was, falling or not.
  | _ => simp [wait, withPlayer, Player.travel]

theorem Moves.of_fallStarted {moved : List Event} (moves : Moves w moved v)
    (fell : .fallStarted ∈ moved) :
    moved = [.fallStarted] ∧ v.player.isMoving = false ∧ v.player.body.usesGravity = true ∧
      v.player.body.velocity = w.player.body.velocity ∧ v.registers = w.registers := by
  cases moves with
  | falls => exact ⟨rfl, rfl, rfl, rfl, rfl⟩
  | _ => cases fell

theorem Settled.fallStarted_mem_iff (settled : w.Settled) (running : w.phase = .running)
    {events : List Event} (stepped : w.step = .ok (events, u)) :
    .fallStarted ∈ events ↔ w.player.isFalling = false ∧ u.player.isFalling = true := by
  obtain ⟨moved, v, acts, last, -, moves, enters, rfl, rfl⟩ := step_eq_ok running settled.rests stepped
  rw [enters.fallStarted_mem_iff, settled.tickClock.fallStarted_mem_iff moves]
  exact and_congr_right fun _ => iff_of_eq (congrArg (· = true) enters.isFalling.symm)

theorem Settled.begins_to_fall (settled : w.Settled) (running : w.phase = .running)
    {events : List Event} (stepped : w.step = .ok (events, u)) (fell : .fallStarted ∈ events) :
    u.player.body.velocity = { w.player.body.velocity with
      y := w.player.body.velocity.y - w.config.gravity * w.config.dt } ∧
    ∃ gems : List TileId, events = .fallStarted :: gems.map .gemRestored := by
  obtain ⟨moved, v, acts, last, -, moves, enters, rfl, rfl⟩ := step_eq_ok running settled.rests stepped
  obtain ⟨rfl, resting, weight, velocity, registers⟩ :=
    moves.of_fallStarted ((enters.fallStarted_mem_iff moved).mp fell)
  -- The player is past all tiles, so nothing is queued since the tick before.
  obtain ⟨rfl, rfl⟩ := enters.eq_of_refused (admits_of_rests resting)
  constructor
  · rw [velocity_of_weight weight, velocity, moves.sameScene.config]
    rfl
  · have drained : v.integrate.arrive.registers.pending = [] :=
      (congrArg Registers.pending registers).trans settled.drained
    obtain ⟨gems, handed⟩ := gems_of_drained drained
    exact ⟨gems, by rw [handed]; rfl⟩

/-! ## Urges -/

theorem Settled.urge_of_falling (settled : w.Settled) (falling : w.player.isFalling = true) {x : Urge}
    (keeps : x ≠ .perform (.changePhase .editing)) :
    ∃ events u, w.urge x = .ok (events, u) ∧ u.Settled ∧
      FallsOn (if x = .perform .step then 1 else 0) w u ∧
      ∀ event ∈ events, ∃ tile, event = .gemRestored tile := by
  have running := settled.running (.inr falling)
  have here := settled.fallsOn_self falling
  cases x with
  | perform c =>
    cases c with
    | step =>
      obtain ⟨gems, stepped⟩ := settled.step_of_falling falling
      refine ⟨_, _, stepped, settled.perform (c := .step) stepped, settled.fallsOn_step falling, ?_⟩
      intro event member
      obtain ⟨tile, -, rfl⟩ := List.mem_map.mp member
      exact ⟨tile, rfl⟩
    | changePhase target =>
      obtain rfl : target = w.phase := by
        cases target with
        | editing => exact absurd rfl keeps
        | running => exact running.symm
      exact ⟨[], w, congrArg _ (changePhase_self w), settled, here, nofun⟩
    | edit tile e =>
      have refused := edit_of_running running tile e
      -- While the simulation runs, every edit is refused.
      refine ⟨[], w, ?_, settled, here, nofun⟩
      simp only [urge, World.perform, refused]
    | changeSpeed delta => exact ⟨[], _, rfl, settled.setSpeed _, { here with }, nofun⟩
    | setSpeed speed => exact ⟨[], _, rfl, settled.setSpeed _, { here with }, nofun⟩
  | setMoving on =>
    -- A falling player does not start, and it has stopped already.
    have same : w.player.setMoving on = w.player := by
      cases on with
      | true => simp [Player.setMoving, falling]
      | false => simp [Player.setMoving, ← here.rests]
    refine ⟨[], w, ?_, settled, here, nofun⟩
    simp only [urge, withPlayer, same]

theorem Settled.urgeAll_of_falling (settled : w.Settled) (falling : w.player.isFalling = true)
    {urges : List Urge} (keeps : ∀ x ∈ urges, x ≠ .perform (.changePhase .editing)) :
    ∃ told u, w.urgeAll urges = .ok (told, u) ∧
      FallsOn (urges.count (.perform .step)) w u ∧
      ∀ event ∈ told.flatten, ∃ tile, event = .gemRestored tile := by
  -- Each urge leaves a settled world in which the player still falls, so the world is general.
  induction urges generalizing w with
  | nil => exact ⟨[], w, rfl, settled.fallsOn_self falling, by simp⟩
  | cons x rest ih =>
    obtain ⟨events, v, first, between, here, restored⟩ :=
      settled.urge_of_falling falling (keeps x List.mem_cons_self)
    obtain ⟨told, u, later, there, others⟩ := ih between here.falling
      fun y member => keeps y (List.mem_cons_of_mem _ member)
    refine ⟨events :: told, u, ?_, ?_, ?_⟩
    · simp [urgeAll, first, later, bind, Except.bind, pure, Except.pure]
    · rw [List.count_cons, Nat.add_comm]
      simpa using here.trans there
    · intro event member
      rcases List.mem_append.mp member with now | afterwards
      · exact restored event now
      · exact others event afterwards

/-- A fall is one-way. Of any world that operations lead to: while the player falls, whatever is asked
short of going back to authoring goes through, the player falls on with only the pull of each tick added
to its velocity, and only restored gems are told; and the step with which it begins to fall tells of
nothing but that and gems, and keeps the velocity up to the pull of that tick. -/
theorem falling_is_one_way (reachable : Reachable w) (running : w.phase = .running) :
    (w.player.isFalling = true → ∀ urges : List Urge,
      (∀ x ∈ urges, x ≠ .perform (.changePhase .editing)) →
      ∃ told u, w.urgeAll urges = .ok (told, u) ∧
        FallsOn (urges.count (.perform .step)) w u ∧
        ∀ event ∈ told.flatten, ∃ tile, event = .gemRestored tile) ∧
    ∀ events u, w.step = .ok (events, u) →
      (.fallStarted ∈ events ↔ w.player.isFalling = false ∧ u.player.isFalling = true) ∧
      (.fallStarted ∈ events →
        u.player.body.velocity = { w.player.body.velocity with
          y := w.player.body.velocity.y - w.config.gravity * w.config.dt } ∧
        ∃ gems : List TileId, events = .fallStarted :: gems.map .gemRestored) := by
  have settled := reachable.settled
  refine ⟨fun falling urges keeps => settled.urgeAll_of_falling falling keeps, ?_⟩
  intro events u stepped
  exact ⟨settled.fallStarted_mem_iff running stepped, settled.begins_to_fall running stepped⟩

/-- The player runs off the row at full speed, and asking it to go on changes nothing. -/
theorem falls_on_past_requests :
    ∃ told w u told' v, onRow 3 (.setSpeed 10 :: List.replicate 7 .step) = .ok (told, w) ∧
      w.step = .ok ([.fallStarted], u) ∧
      u.player.body.velocity = { w.player.body.velocity with
        y := w.player.body.velocity.y - w.config.gravity * w.config.dt } ∧
      u.urgeAll [.setMoving true, .perform .step, .perform (.setSpeed 1),
        .perform (.changePhase .running), .setMoving false, .perform .step] = .ok (told', v) ∧
      FallsOn 2 u v := by
  have falls : (onRow 3 (.setSpeed 10 :: List.replicate 7 .step)).toOption.any (fun played =>
      decide (played.2.phase = .running) &&
      played.2.step.toOption.any (fun stepped => decide (stepped.1 = [.fallStarted]))) = true := by
    decide +kernel
  obtain ⟨⟨told, w⟩, played, checked⟩ := exists_of_any falls
  obtain ⟨running, checked⟩ := Bool.and_eq_true_iff.mp checked
  obtain ⟨⟨events, u⟩, stepped, tells⟩ := exists_of_any checked
  obtain rfl : events = [.fallStarted] := of_decide_eq_true tells
  have reachable := reachable_of_play played
  obtain ⟨-, begins⟩ := falling_is_one_way reachable (of_decide_eq_true running)
  obtain ⟨starts, keeps⟩ := begins _ _ stepped
  have falling := (starts.mp List.mem_cons_self).2
  have later : Reachable u := reachable.perform (c := .step) stepped
  have still : u.phase = .running := later.settled.running (.inr falling)
  obtain ⟨told', v, urged, on, -⟩ := (falling_is_one_way later still).1 falling
    [.setMoving true, .perform .step, .perform (.setSpeed 1), .perform (.changePhase .running),
      .setMoving false, .perform .step] (by decide)
  exact ⟨told, w, u, told', v, played, stepped, (keeps List.mem_cons_self).1, urged, on⟩

end World
end Tilewalk
