import Tilewalk.Proofs.World.Coherence

/-! A change of phase starts over: it leaves the world that opening the board as it is now would give,
but for the phase, the speed, the clock and the random words. -/

set_option autoImplicit false

namespace Tilewalk

theorem Registers.eq_fresh {s : Registers} (zero : ∀ r, s.get r = 0) (none : s.pending = []) :
    s = .fresh := by
  cases s with
  | mk ruby sapphire emerald pending =>
    cases none
    have first := zero .ruby
    have second := zero .sapphire
    have third := zero .emerald
    simp only [get] at first second third
    rw [first, second, third]
    rfl

namespace World

/-- The world holds on to the settings and the spawn pose with which it was opened. -/
structure Remembers (spawn : Pose) (config : SimConfig) (w : World) : Prop where
  settings : w.config = config
  spawn : w.player.spawn = spawn
  speedLimit : w.player.speedLimit = Binary32.clamp config.maxSpeed 0 Player.topSpeed

variable {board : Board} {spawn : Pose} {config : SimConfig} {words : WordSource}
  {commands : List Command} {told : List (List Event)} {w u : World}

theorem remembers_opened (made : opened board spawn config words = .ok w) :
    Remembers spawn config w := by
  obtain ⟨p, player, rfl⟩ := opened_eq_ok made
  have same := Player.eq_of_spawned player
  exact ⟨rfl, by rw [same], by rw [same]⟩

theorem Remembers.of_sameStage (remembers : Remembers spawn config w) (same : SameStage w u) :
    Remembers spawn config u :=
  ⟨same.config.trans remembers.settings, same.spawn.trans remembers.spawn,
    same.speedLimit.trans remembers.speedLimit⟩

theorem Remembers.performs (remembers : Remembers spawn config w) {c : Command}
    {events : List Event} (performs : Performs w c events u) : Remembers spawn config u := by
  cases performs with
  | ticks _ ticks => exact remembers.of_sameStage ticks.sameStage
  | idles => exact remembers
  | stays => exact remembers
  | refuses => exact remembers
  | restarts => exact { remembers with }
  | edits => exact { remembers with }
  | changesSpeed => exact { remembers with }
  | setsSpeed => exact { remembers with }

theorem remembers_of_play (played : play board spawn config words commands = .ok (told, w)) :
    Remembers spawn config w := by
  refine play_preserves (fun _ v => Remembers spawn config v) remembers_opened ?_ played
  intro past v x c events _ remembers performs
  exact remembers.performs performs

theorem Settled.registers_restart (settled : w.Settled) {target : Phase} (other : w.phase ≠ target) :
    (w.restart target).registers = .fresh := by
  apply Registers.eq_fresh
  · cases target with
    | editing =>
      intro r
      cases r <;> rfl
    | running =>
      -- Only the way into authoring resets them: before it they were never written.
      have editing : w.phase = .editing := by
        cases phase : w.phase with
        | editing => rfl
        | running => exact absurd phase other
      exact fun r => (Registers.get_drain _ r).trans ((settled.blank editing).2 r)
  · rfl

theorem Settled.restartEvents_eq (settled : w.Settled) (target : Phase) :
    w.restartEvents target = .phaseChanged target
      :: w.timers.pending.map (fun timer => .gemRestored timer.tile)
      ++ if target = .editing then
          [.variableChanged .ruby 0, .variableChanged .sapphire 0, .variableChanged .emerald 0]
        else [] := by
  -- Nothing is queued between operations, so what is told are the zeros of a reset.
  have changes : (target.prepare w.registers).drain.1.map Event.ofChange =
      if target = .editing then
        [.variableChanged .ruby 0, .variableChanged .sapphire 0, .variableChanged .emerald 0]
      else [] := by
    cases target with
    | editing =>
      have announced : w.registers.reset.pending
          = w.registers.pending ++ [⟨.ruby, 0⟩] ++ [⟨.sapphire, 0⟩] ++ [⟨.emerald, 0⟩] := rfl
      simp [Phase.prepare, Registers.drain, announced, settled.drained, Event.ofChange]
    | running => simp [Phase.prepare, Registers.drain, settled.drained]
  rw [restartEvents, changes, Timers.takeAll, List.map_map]
  rfl

theorem Remembers.player_restart (remembers : Remembers spawn config w) {p : Player}
    (made : Player.spawned spawn config.initialSpeed config.maxSpeed = .ok p) (target : Phase) :
    (w.restart target).player =
      { p with phase := target, isMoving := decide (target = .running), speed := w.player.speed } := by
  rw [Player.eq_of_spawned made]
  simp [restart, Player.respawn, remembers.spawn, remembers.speedLimit]

/-- An actual change of phase: what it tells, and the world opened anew that it leaves. -/
theorem changePhase_eq_fresh (played : play board spawn config words commands = .ok (told, w))
    {target : Phase} (other : w.phase ≠ target) (seed : WordSource) :
    ∃ fresh, opened w.board spawn w.config seed = .ok fresh ∧
      w.changePhase target =
        (.phaseChanged target :: w.timers.pending.map (fun timer => .gemRestored timer.tile)
          ++ (if target = .editing then
            [.variableChanged .ruby 0, .variableChanged .sapphire 0, .variableChanged .emerald 0]
          else []),
        { fresh with
          phase := target
          contacts := { fresh.contacts with phase := target }
          player := { fresh.player with
            phase := target
            isMoving := decide (target = .running)
            speed := w.player.speed }
          words := w.words
          time := w.time
          tick := w.tick }) ∧
      (w.changePhase target).2.changePhase target = ([], (w.changePhase target).2) := by
  have settled := (reachable_of_play played).settled
  have remembers := remembers_of_play played
  obtain ⟨start, made, -⟩ := play_eq_ok played
  obtain ⟨p, player, -⟩ := opened_eq_ok made
  have again : opened w.board spawn w.config seed
      = .ok ⟨w.config, w.board, .editing, .fresh, p, .none, .none, seed, false, 0, 0⟩ := by
    simp [opened, remembers.settings, player, bind, Except.bind, pure, Except.pure]
  have changed := changePhase_of_ne settled.told other
  refine ⟨_, again, ?_, ?_⟩
  · -- Registers and player are what a new world has, and the rest is set by the change itself.
    have parts : w.restart target = ⟨w.config, w.board, target, (w.restart target).registers,
        (w.restart target).player, ⟨[], target⟩, .none, w.words, false, w.time, w.tick⟩ := rfl
    rw [changed, settled.restartEvents_eq, parts, settled.registers_restart other,
      remembers.player_restart player]
    rfl
  · rw [changed]
    exact changePhase_self (w.restart target)

theorem gem_restored_by_reset :
    ∃ told w fresh, onRow 2 [.step] = .ok (told, w) ∧ w.phase ≠ .editing ∧
      opened w.board ⟨⟨0, 0.5, 2⟩, .identity⟩ w.config (.stepping 1 1) = .ok fresh ∧
      (w.changePhase .editing).1 = [.phaseChanged .editing, .gemRestored 2,
        .variableChanged .ruby 0, .variableChanged .sapphire 0, .variableChanged .emerald 0] ∧
      (w.changePhase .editing).2.registers = fresh.registers := by
  have hides : (onRow 2 [.step]).toOption.any (fun played =>
      decide (played.2.phase ≠ .editing ∧ played.2.timers.pending.map (·.tile) = [2])) = true := by
    decide +kernel
  obtain ⟨⟨told, w⟩, played, checked⟩ := exists_of_any hides
  obtain ⟨other, pending⟩ := of_decide_eq_true checked
  obtain ⟨fresh, again, changed, -⟩ := changePhase_eq_fresh played other (.stepping 1 1)
  have restored : w.timers.pending.map (fun timer => Event.gemRestored timer.tile)
      = [.gemRestored 2] := by
    simpa [List.map_map, Function.comp_def] using congrArg (List.map Event.gemRestored) pending
  refine ⟨told, w, fresh, played, other, again, ?_, ?_⟩
  · rw [changed, restored]
    rfl
  · rw [changed]

end World
end Tilewalk
