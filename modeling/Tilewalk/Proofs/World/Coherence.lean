import Tilewalk.Proofs.Player
import Tilewalk.Proofs.Timers
import Tilewalk.Proofs.World.Operation

/-! Coherent worlds: the copies of the phase agree, the player is steady, a completed stage has come to
rest, and each timer belongs to a gem tile of its own. Every stage of a tick keeps this, and so does
every operation. -/

set_option autoImplicit false

namespace Tilewalk

@[simp] theorem Registers.get_drain (s : Registers) (r : Register) : s.drain.2.get r = s.get r := by
  cases r <;> rfl

namespace World

structure Coherent (w : World) : Prop where
  player : w.player.phase = w.phase
  contacts : w.contacts.phase = w.phase
  steady : w.player.Steady
  running : w.player.isMoving = true ∨ w.player.isFalling = true → w.phase = .running
  /-- A running player that has come to rest stands on the goal. -/
  parked : w.phase = .running → w.player.isMoving = false → w.player.isFalling = false →
    w.complete = true ∧ w.player.body.velocity = .zero
  finished : w.complete = true →
    w.phase = .running ∧ w.player.isMoving = false ∧ w.player.isFalling = false
  oneEach : w.timers.OneEach
  gems : ∀ timer ∈ w.timers.pending, ∃ r o n, w.board.kind? timer.tile = some (.gem r o n)
  /-- While authoring nothing is left of earlier runs. -/
  blank : w.phase = .editing → w.timers.pending = [] ∧ ∀ r, w.registers.get r = 0

variable {w u : World}

theorem Coherent.told (coherent : w.Coherent) : w.Told := ⟨coherent.player, coherent.contacts⟩

theorem Coherent.rests (coherent : w.Coherent) :
    w.complete = true → w.player.isMoving = false :=
  fun finished => (coherent.finished finished).2.1

theorem Coherent.replace (coherent : w.Coherent) {p : Player} (steady : p.Steady)
    (phase : p.phase = w.player.phase) (moving : p.isMoving = w.player.isMoving)
    (falling : p.isFalling = w.player.isFalling)
    (rest : p.isFalling = false → p.body.velocity = w.player.body.velocity) :
    Coherent { w with player := p } :=
  { coherent with
    player := phase.trans coherent.player
    steady := steady
    running := fun going => coherent.running (moving ▸ falling ▸ going)
    parked := fun running resting grounded => by
      obtain ⟨finished, zero⟩ := coherent.parked running (moving ▸ resting) (falling ▸ grounded)
      exact ⟨finished, (rest grounded).trans zero⟩
    finished := fun finished => by
      obtain ⟨running, resting, grounded⟩ := coherent.finished finished
      exact ⟨running, moving.trans resting, falling.trans grounded⟩ }

theorem Coherent.carryOn (coherent : w.Coherent) (moving : w.player.isMoving = true) {p : Player}
    (steady : p.Steady) (phase : p.phase = w.player.phase)
    (going : p.isMoving = true ∨ p.isFalling = true) : Coherent { w with player := p } :=
  { coherent with
    player := phase.trans coherent.player
    steady := steady
    running := fun _ => coherent.running (.inl moving)
    parked := fun _ resting grounded => by
      rcases going with moving' | falling
      · cases moving'.symm.trans resting
      · cases falling.symm.trans grounded
    finished := fun finished => by cases moving.symm.trans (coherent.rests finished) }

theorem Coherent.tickClock (coherent : w.Coherent) : w.tickClock.Coherent := { coherent with }

theorem Coherent.moves (coherent : w.Coherent) {events : List Event} (moves : Moves w events u) :
    u.Coherent := by
  cases moves with
  | holds kept =>
    exact coherent.replace (coherent.steady.tickCooldown kept _) rfl rfl rfl fun _ => rfl
  | stands => exact coherent
  | travels free moving _ =>
    exact coherent.carryOn moving (coherent.steady.travel free) rfl (.inl moving)
  | falls free moving _ _ =>
    exact { coherent.carryOn moving (coherent.steady.fall free _) rfl (.inr rfl) with }

theorem Coherent.integrate (coherent : w.Coherent) : w.integrate.Coherent := by
  refine coherent.replace (coherent.steady.integrate _ _) rfl rfl rfl fun grounded => ?_
  exact coherent.steady.velocity_integrate grounded _ _

theorem Coherent.arrive (coherent : w.Coherent) : w.arrive.Coherent :=
  { coherent with }

theorem Coherent.acts (coherent : w.Coherent) (admitted : w.admits = true) {tile : TileId}
    {event : Event} (acts : Acts w tile event u) : u.Coherent := by
  obtain ⟨moving, free⟩ := admits_iff.mp admitted
  have steady := coherent.steady
  have running := coherent.running (.inl moving)
  -- A tile acts on a moving player only, so nothing that is said of resting or falling ones is at stake, but
  -- at the goal.
  cases acts with
  | skips => exact coherent.replace { steady with } rfl rfl rfl fun _ => rfl
  | turns => exact coherent.replace { steady with } rfl rfl rfl fun _ => rfl
  | computes found =>
    refine
      { coherent with
        oneEach := coherent.oneEach.start _ _ _
        gems := fun timer member => ?_
        blank := fun editing => ?_ }
    · -- The new timer belongs to the very gem that acts.
      rcases Timers.mem_start member with same | old
      · exact ⟨_, _, _, same.symm ▸ found⟩
      · exact coherent.gems timer old
    · cases editing.symm.trans running
  | passes => exact coherent
  | fails => exact coherent.replace { steady with } rfl rfl rfl fun _ => rfl
  | strands => exact coherent
  | jumps => exact coherent.carryOn moving (steady.jump moving _ _) rfl (.inl moving)
  | completes =>
    exact
      { coherent with
        steady := steady.stopAtGoal free
        running := fun _ => running
        parked := fun _ _ _ => ⟨rfl, rfl⟩
        finished := fun _ => ⟨running, rfl, steady.grounded moving⟩ }

theorem Coherent.enters (coherent : w.Coherent) {tiles : List TileId}
    {acts : List (TileId × Event)} (enters : Enters w tiles acts u) : u.Coherent := by
  induction enters with
  | done => exact coherent
  | passed _ _ ih => exact ih coherent
  | acted admitted act _ ih => exact ih (coherent.acts admitted act)

/-- A coherent world between two operations, in which nothing waits to be told. -/
structure Settled (w : World) : Prop extends Coherent w where
  drained : w.registers.pending = []

theorem Coherent.handOver (coherent : w.Coherent) : w.handOver.2.Settled :=
  { coherent with
    oneEach := coherent.oneEach.takeDue _
    gems := fun timer member => coherent.gems timer (List.mem_filter.mp member).1
    blank := fun editing => by
      obtain ⟨none, zero⟩ := coherent.blank editing
      refine ⟨?_, fun r => (Registers.get_drain _ r).trans (zero r)⟩
      simp [World.handOver, resolveTimers, drainChanges, Timers.takeDue, none]
    drained := rfl }

theorem Coherent.ticks (coherent : w.Coherent) {events : List Event} (ticks : Ticks w events u) :
    u.Settled := by
  -- The stages of a tick may leave changes to tell, and the last one tells them.
  cases ticks with
  | mk moves enters =>
    exact ((coherent.tickClock.moves moves).integrate.arrive.enters enters).handOver

theorem settled_restart (w : World) (target : Phase) : (w.restart target).Settled where
  player := rfl
  contacts := rfl
  steady := Player.steady_of_body_eq rfl rfl rfl
  -- The player moves exactly when the target is running.
  running := fun going => by
    rcases going with moving | falling
    · exact of_decide_eq_true moving
    · cases falling
  parked := fun running resting _ => absurd running (of_decide_eq_false resting)
  finished := fun finished => by cases finished
  oneEach := List.nodup_nil
  gems := fun timer member => by cases member
  blank := fun editing => by
    refine ⟨rfl, fun r => ?_⟩
    cases target with
    | editing => cases r <;> rfl
    | running => cases editing
  drained := rfl

theorem settled_opened {board : Board} {spawn : Pose} {config : SimConfig} {words : WordSource}
    (made : opened board spawn config words = .ok w) : w.Settled := by
  obtain ⟨p, player, rfl⟩ := opened_eq_ok made
  have same := Player.eq_of_spawned player
  exact
    { player := by simp [same]
      contacts := rfl
      steady := Player.steady_spawned player
      running := fun going => by simp [same] at going
      parked := fun running => by cases running
      finished := fun finished => by cases finished
      oneEach := List.nodup_nil
      gems := fun timer member => by cases member
      blank := fun _ => ⟨rfl, fun r => by cases r <;> rfl⟩
      drained := rfl }

theorem Settled.setSpeed (settled : w.Settled) (speed : Float32) :
    Settled { w with player := { w.player with speed := speed } } := by
  have steady : Player.Steady { w.player with speed := speed } := { settled.steady with }
  exact { settled.replace steady rfl rfl rfl fun _ => rfl with drained := settled.drained }

theorem Settled.performs (settled : w.Settled) {c : Command} {events : List Event}
    (result : w.perform c = .ok (events, u)) : Performs w c events u :=
  perform_performs settled.told settled.rests result

theorem Settled.perform (settled : w.Settled) {c : Command} {events : List Event}
    (result : w.perform c = .ok (events, u)) : u.Settled := by
  cases settled.performs result with
  | idles => exact settled
  | ticks _ ticks => exact settled.ticks ticks
  | stays => exact settled
  | restarts => exact settled_restart w _
  | refuses => exact settled
  | edits editing =>
    -- An edit may turn a gem into another, but no gem is hidden while authoring.
    refine { settled with gems := fun timer member => ?_ }
    have none : timer ∈ [] := (settled.blank editing).1 ▸ member
    cases none
  | changesSpeed => exact settled.setSpeed _
  | setsSpeed => exact settled.setSpeed _

theorem Reachable.settled (reachable : Reachable w) : w.Settled := by
  induction reachable with
  | opened made => exact settled_opened made
  | perform _ result ih => exact ih.perform result

section
variable {board : Board} {spawn : Pose} {config : SimConfig} {words : WordSource}
  {commands : List Command} {told : List (List Event)}

/-- What holds of newly opened worlds and is kept by each operation on a settled one. -/
theorem Reachable.preserves (Holds : World → Prop)
    (first : ∀ {board : Board} {spawn : Pose} {config : SimConfig} {words : WordSource}
      {start : World}, World.opened board spawn config words = .ok start → Holds start)
    (kept : ∀ {v x : World} {c : Command} {events : List Event}, v.Settled → Holds v →
      Performs v c events x → Holds x)
    (reachable : Reachable w) : Holds w := by
  induction reachable with
  | opened made => exact first made
  | perform before result ih => exact kept before.settled ih (before.settled.performs result)

theorem Settled.run_preserves (Holds : List Event → World → Prop)
    (kept : ∀ {past : List Event} {v x : World} {c : Command} {events : List Event}, v.Settled →
      Holds past v → Performs v c events x → Holds (past ++ events) x)
    (settled : w.Settled) (past : List Event) (holds : Holds past w)
    (ran : w.run commands = .ok (told, u)) : u.Settled ∧ Holds (past ++ told.flatten) u := by
  have both {past : List Event} {v x : World} {c : Command} {events : List Event}
      (before : v.Settled ∧ Holds past v) (result : v.perform c = .ok (events, x)) :
      x.Settled ∧ Holds (past ++ events) x := by
    obtain ⟨settled, holds⟩ := before
    exact ⟨settled.perform result, kept settled holds (settled.performs result)⟩
  exact World.run_preserves (fun past v => v.Settled ∧ Holds past v) both ⟨settled, holds⟩ ran

theorem play_preserves (Holds : List Event → World → Prop)
    (first : ∀ {start : World}, opened board spawn config words = .ok start → Holds [] start)
    (kept : ∀ {past : List Event} {v x : World} {c : Command} {events : List Event}, v.Settled →
      Holds past v → Performs v c events x → Holds (past ++ events) x)
    (played : play board spawn config words commands = .ok (told, w)) : Holds told.flatten w := by
  obtain ⟨start, made, ran⟩ := play_eq_ok played
  exact ((settled_opened made).run_preserves Holds kept [] (first made) ran).2

end

end World
end Tilewalk
