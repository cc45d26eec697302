import Tilewalk.Proofs.Number.Sum
import Tilewalk.Proofs.World.Skipping

/-! The hold after a teleport. A held player neither moves nor falls. The tiles around the destination
are entered in the first tick after the jump; they act only when the hold ends in that very tick. -/

set_option autoImplicit false

namespace Tilewalk

theorem Vec3.add_zero_mul_add (p : Vec3) (dt : Float32) :
    p + Vec3.zero * dt + Vec3.zero * dt = p + Vec3.zero * dt := by
  have settled (x : Float32) : x + 0 * dt + 0 * dt = x + 0 * dt :=
    Binary32.add_add_of_settles (Binary32.settles_zero_mul dt) x
  calc p + Vec3.zero * dt + Vec3.zero * dt
      = ⟨p.x + 0 * dt + 0 * dt, p.y + 0 * dt + 0 * dt, p.z + 0 * dt + 0 * dt⟩ := rfl
    _ = ⟨p.x + 0 * dt, p.y + 0 * dt, p.z + 0 * dt⟩ := by simp only [settled]
    _ = p + Vec3.zero * dt := rfl

namespace Body

structure Resting (b : Body) : Prop where
  weightless : b.usesGravity = false
  still : b.velocity = .zero

theorem Resting.position_integrate {b : Body} (resting : b.Resting) (dt gravity : Float32) :
    (b.integrate dt gravity).position = b.position + Vec3.zero * dt := by
  simp [integrate, accelerated, resting.weightless, resting.still]

theorem Resting.integrate {b : Body} (resting : b.Resting) (dt gravity : Float32) :
    (b.integrate dt gravity).Resting where
  weightless := resting.weightless
  still := by simp [Body.integrate, accelerated, resting.weightless, resting.still]

/-- A resting body may drift once, by the rounding of a sum with zero, and then stays. -/
theorem Resting.position_integrate_integrate {b : Body} (resting : b.Resting)
    (dt gravity : Float32) :
    ((b.integrate dt gravity).integrate dt gravity).position = (b.integrate dt gravity).position := by
  rw [(resting.integrate dt gravity).position_integrate, resting.position_integrate,
    Vec3.add_zero_mul_add]

end Body

namespace World

variable {w u : World}

theorem Coherent.resting_of_held (coherent : w.Coherent) (held : 0 < w.player.cooldown) :
    w.player.body.Resting := by
  obtain ⟨moving, still⟩ := coherent.steady.held held
  exact ⟨coherent.steady.gravity.trans (coherent.steady.grounded moving), still⟩

/-! ## What tiles do to the hold -/

theorem Acts.cooldown {tile : TileId} {event : Event} (acts : Acts w tile event u) :
    u.player.cooldown = w.player.cooldown ∨
      u.player.cooldown = Binary32.atLeast 0 w.config.teleportCooldown := by
  cases acts with
  | jumps => exact .inr rfl
  | _ => exact .inl rfl

theorem Enters.cooldown {tiles : List TileId} {acts : List (TileId × Event)}
    (enters : Enters w tiles acts u) (held : 0 < u.player.cooldown) :
    u = w ∨ u.player.cooldown = Binary32.atLeast 0 w.config.teleportCooldown := by
  induction enters with
  | done => exact .inl rfl
  | passed _ _ ih => exact ih held
  | acted admitted act _ ih =>
    right
    -- Only a moving player that is free lets tiles act, so a held one that acted was held by the last of
    -- them.
    rcases ih held with rfl | last
    · rcases act.cooldown with same | jumped
      · rw [same] at held
        exact absurd held (admits_iff.mp admitted).2
      · exact jumped
    · rwa [act.sameScene.config] at last

/-- The player stays where it is and has entered whatever it touches there. -/
structure Rests (w : World) : Prop where
  place : w.integrate.player.position = w.player.position
  known : ∀ tile ∈ w.touched, tile ∈ w.contacts.inside

/-- The hold has yet to begin, or the player rests. -/
def Landed (w : World) : Prop :=
  w.player.cooldown = Binary32.atLeast 0 w.config.teleportCooldown ∨ w.Rests

theorem Settled.landed_of_ticks (settled : w.Settled) {events : List Event}
    (ticks : Ticks w events u) (held : 0 < u.player.cooldown) : u.Landed := by
  cases ticks with
  | @mk moved m v acts moves enters =>
    rcases enters.cooldown held with rfl | jumped
    · cases moves with
      | holds kept =>
        -- No tile acted, so the contacts are those of the place to which the body came to rest.
        have resting := settled.resting_of_held (settled.steady.held_of_not_free kept)
        refine .inr ⟨resting.position_integrate_integrate _ _, fun tile touched => ?_⟩
        exact Contacts.mem_ascending.mpr touched
      | stands free => exact absurd held (Player.not_held_of_free free)
      | travels free => exact absurd held (Player.not_held_of_free free)
      | falls free => exact absurd held (Player.not_held_of_free free)
    · refine .inl (jumped.trans ?_)
      rw [← enters.sameScene.config]
      rfl

theorem Landed.setSpeed (landed : w.Landed) (speed : Float32) :
    Landed { w with player := { w.player with speed := speed } } := by
  rcases landed with begun | rests
  · exact .inl begun
  · exact .inr ⟨rests.place, rests.known⟩

theorem Reachable.landed (reachable : Reachable w) : 0 < w.player.cooldown → w.Landed := by
  refine reachable.preserves (fun v => 0 < v.player.cooldown → v.Landed) ?_ ?_
  · intro board spawn config words start made held
    obtain ⟨p, player, rfl⟩ := opened_eq_ok made
    rw [Player.eq_of_spawned player] at held
    exact absurd held Binary32.not_zero_lt_zero
  · intro v x c events settled landed performs held
    cases performs with
    | ticks _ ticks => exact settled.landed_of_ticks ticks held
    | restarts => exact absurd held Binary32.not_zero_lt_zero
    | edits editing =>
      -- A held player is running, so nothing can have been edited.
      have running := settled.running (.inl (settled.steady.held held).1)
      cases editing.symm.trans running
    | idles => exact landed held
    | stays => exact landed held
    | refuses => exact landed held
    | changesSpeed => exact (landed held).setSpeed _
    | setsSpeed => exact (landed held).setSpeed _

/-! ## A tick of the hold -/

theorem Enters.isFalling {tiles : List TileId} {acts : List (TileId × Event)}
    (enters : Enters w tiles acts u) : u.player.isFalling = w.player.isFalling := by
  induction enters with
  | done => rfl
  | passed _ _ ih => exact ih
  | acted _ act _ ih =>
    rw [ih]
    cases act <;> rfl

theorem Enters.still {tiles : List TileId} {acts : List (TileId × Event)}
    (enters : Enters w tiles acts u) (still : w.player.body.velocity = .zero) :
    u.player.body.velocity = .zero := by
  induction enters with
  | done => exact still
  | passed _ _ ih => exact ih still
  | acted _ act _ ih =>
    apply ih
    cases act with
    | jumps => rfl
    | completes => rfl
    | _ => exact still

theorem Enters.eq_of_idle {tiles : List TileId} {acts : List (TileId × Event)}
    (enters : Enters w tiles acts u) (idle : acts = []) : u = w := by
  induction enters with
  | done => rfl
  | passed _ _ ih => exact ih idle
  | acted => cases idle

theorem Enters.acts_ne_nil_iff {tiles : List TileId} {acts : List (TileId × Event)}
    (enters : Enters w tiles acts u) : acts ≠ [] ↔ w.admits = true ∧ tiles ≠ [] := by
  cases admitted : w.admits with
  | false => simp [(enters.eq_of_refused admitted).1]
  | true =>
    cases enters with
    | done => simp
    | passed refused => cases admitted.symm.trans refused
    | acted => simp

theorem Rests.entered_eq_nil (rests : w.Rests) : w.integrate.entered = [] := by
  apply List.eq_nil_iff_forall_not_mem.mpr
  intro tile member
  obtain ⟨touched, outside⟩ := mem_entered.mp member
  obtain ⟨t, lookup, here⟩ := mem_touched.mp touched
  rw [rests.place] at here
  exact outside (rests.known tile (mem_touched.mpr ⟨t, lookup, here⟩))

theorem Landed.acts_iff (landed : w.Landed) (moving : w.player.isMoving = true)
    (held : 0 < w.player.cooldown) :
    w.tickClock.wait.integrate.arrive.admits = true ∧ w.integrate.entered ≠ [] ↔
      ¬ 0 < w.config.teleportCooldown - w.config.dt ∧ w.integrate.entered ≠ [] := by
  rcases landed with begun | rests
  · have whole : w.player.cooldown = w.config.teleportCooldown := by
      rcases Binary32.atLeast_cases 0 w.config.teleportCooldown with floor | ⟨_, same⟩
      · rw [begun, floor] at held
        exact absurd held Binary32.not_zero_lt_zero
      · rw [begun, same]
    -- The tick has taken its part of the hold before the tiles are asked.
    have left : w.tickClock.wait.integrate.arrive.player.cooldown
        = Binary32.atLeast 0 (w.config.teleportCooldown - w.config.dt) := by rw [← whole]; rfl
    rw [admits_iff, left, Binary32.zero_lt_atLeast_iff]
    exact and_congr_left fun _ => ⟨And.right, fun ended => ⟨moving, ended⟩⟩
  · simp [rests.entered_eq_nil]

theorem drain_of_pending {s : Registers} (none : s.pending = []) : s.drain.2 = s := by
  cases s
  cases none
  rfl

theorem tells_iff {acts : List (TileId × Event)}
    (tells : ∀ event ∈ acts.map (·.2), event.isTile = true) (v : World) :
    (∃ event ∈ [] ++ acts.map (·.2) ++ v.handOver.1, event.isTile = true) ↔ acts ≠ [] := by
  constructor
  · rintro ⟨event, member, tile⟩ rfl
    cases tile.symm.trans (aside_handOver v event member).1
  · intro some
    obtain ⟨act, rest, rfl⟩ := List.exists_cons_of_ne_nil some
    exact ⟨act.2, by simp, tells act.2 (by simp)⟩

/-- A step with a held player: it neither moves nor falls, and tiles act only in the one case in which
the hold is no longer than a tick. -/
theorem held_step (reachable : Reachable w) (held : 0 < w.player.cooldown) :
    ∃ events u, w.step = .ok (events, u) ∧
      .fallStarted ∉ events ∧
      u.player.body.velocity = w.player.body.velocity ∧
      u.player.isFalling = w.player.isFalling ∧
      ((∃ event ∈ events, event.isTile = true) ↔
        ¬ 0 < w.config.teleportCooldown - w.config.dt ∧ w.integrate.entered ≠ []) ∧
      ((∀ event ∈ events, event.isTile = false) →
        u.player.position = w.player.position + Vec3.zero * w.config.dt ∧
        u.player.heading = w.player.heading ∧ u.registers = w.registers ∧
        u.player.skipArmed = w.player.skipArmed ∧ u.player.isMoving = w.player.isMoving ∧
        u.complete = w.complete) := by
  have settled := reachable.settled
  obtain ⟨moving, still⟩ := settled.steady.held held
  have resting := settled.resting_of_held held
  have kept : ¬ w.player.cooldown ≤ 0 := Binary32.not_le_of_lt held
  -- The movement is decided with the hold still there, and the acts are with one tick less of it.
  have movement : w.tickClock.resolveMovement = .ok ([], w.tickClock.wait) :=
    resolveMovement_of_held (w := w.tickClock) kept
  obtain ⟨acts, v, enters, stepped⟩ :=
    step_of_movement (settled.running (.inl moving)) movement settled.rests
  have tells := tells_iff enters.isTile v
  have acted : acts ≠ [] ↔
      ¬ 0 < w.config.teleportCooldown - w.config.dt ∧ w.integrate.entered ≠ [] :=
    enters.acts_ne_nil_iff.trans ((reachable.landed held).acts_iff moving held)
  refine ⟨_, _, stepped, ?_, ?_, ?_, tells.trans acted, ?_⟩
  · intro fell
    rcases List.mem_append.mp fell with early | late
    · cases enters.isTile _ early
    · simp [handOver, resolveTimers, drainChanges, Event.ofChange] at late
  · exact (enters.still (resting.integrate _ _).still).trans still.symm
  · exact enters.isFalling
  · intro untold
    have idle : acts = [] := Classical.byContradiction fun some => by
      obtain ⟨event, member, tile⟩ := tells.mpr some
      cases tile.symm.trans (untold event member)
    cases enters.eq_of_idle idle
    have drained := drain_of_pending settled.drained
    simp [Player.position, handOver, resolveTimers, drainChanges, arrive, World.integrate, wait,
      withPlayer, tickClock, Body.integrate, Body.accelerated, resting.weightless, resting.still,
      drained]

theorem nothing_told_of_long_hold :
    ∃ told w, onRow 3 [.step] = .ok (told, w) ∧ 0 < w.player.cooldown ∧
      ∃ events u, w.step = .ok (events, u) ∧ ∀ event ∈ events, event.isTile = false := by
  have teleports : (onRow 3 [.step]).toOption.any (fun played =>
      decide (0 < played.2.player.cooldown
        ∧ 0 < played.2.config.teleportCooldown - played.2.config.dt)) = true := by
    decide +kernel
  obtain ⟨⟨told, w⟩, played, checked⟩ := exists_of_any teleports
  obtain ⟨held, long⟩ := of_decide_eq_true checked
  obtain ⟨events, u, stepped, -, -, -, tells, -⟩ := held_step (reachable_of_play played) held
  refine ⟨told, w, played, held, events, u, stepped, fun event member => ?_⟩
  apply Bool.eq_false_iff.mpr
  intro tile
  exact absurd long (tells.mp ⟨event, member, tile⟩).1

def nearArrow : Board :=
  let tiles : List Tile := [.place (.teleport 0 .source) ⟨0, 0, 0⟩,
    .place (.teleport 0 .destination) ⟨5, 0, 0⟩, .place (.arrow .right) ⟨6, 0, 0⟩]
  tiles.foldl .addTile (.empty "near arrow")

def shortHold : SimConfig :=
  { SimConfig.standard with
    teleportCooldown := 0.01
    playerHalfExtent := 0.6
    triggerHalfExtent := 0.6 }

/-- When the hold ends within its first tick, an arrow next to the destination turns the player. -/
theorem arrow_turns_held_player :
    shortHold.legalize.toOption = some (shortHold, []) ∧
    ∃ w, Reachable w ∧ w.config = shortHold ∧ w.phase = .running ∧ 0 < w.player.cooldown ∧
      ∃ events u, w.step = .ok (events, u) ∧ .directionChanged 2 .right ∈ events ∧
        w.player.heading = .up ∧ u.player.heading = .right := by
  refine ⟨by decide +kernel, ?_⟩
  have turns : (play nearArrow ⟨⟨0, 0.5, 0⟩, .identity⟩ shortHold (.stepping 0 1)
      [.changePhase .running, .step]).toOption.any (fun played =>
        decide (played.2.config = shortHold ∧ played.2.phase = .running ∧
          0 < played.2.player.cooldown ∧ played.2.player.heading = .up) &&
        played.2.step.toOption.any (fun stepped =>
          decide (.directionChanged 2 .right ∈ stepped.1 ∧ stepped.2.player.heading = .right)))
      = true := by
    decide +kernel
  obtain ⟨⟨told, w⟩, played, checked⟩ := exists_of_any turns
  obtain ⟨before, stepped⟩ := Bool.and_eq_true_iff.mp checked
  obtain ⟨config, running, held, up⟩ := of_decide_eq_true before
  obtain ⟨⟨events, u⟩, stepped, after⟩ := exists_of_any stepped
  obtain ⟨told, right⟩ := of_decide_eq_true after
  exact ⟨w, reachable_of_play played, config, running, held, events, u, stepped, told, up, right⟩

end World
end Tilewalk
