import Tilewalk.Proofs.World.Reset

/-! Replays. The seed and the random words, the clock, the timers and how the player's body is turned
and spins never reach anything else: worlds that differ in nothing more run alike, but for the gems
that come back. So a stage is replayed whatever the seed and whatever was run before. -/

set_option autoImplicit false

namespace Tilewalk

namespace Event

def isRestore : Event → Bool
  | gemRestored _ => true
  | _ => false

def lasting (told : List Event) : List Event := told.filter fun event => !event.isRestore

end Event

def Player.tumbled (p : Player) (rotation : Quaternion) (spin : Vec3) : Player :=
  { p with body := { p.body with rotation := rotation, spin := spin } }

/-- What a world keeps behind the scenes. -/
structure Backstage where
  fallSeed : Option UInt64
  rotation : Quaternion
  spin : Vec3
  timers : Timers
  words : WordSource
  time : Float
  tick : UInt64

namespace World

open Event

/-- The worlds agree on everything but what they keep behind the scenes. -/
structure Similar (w v : World) : Prop where
  settings : v.config = { w.config with fallSeed := v.config.fallSeed }
  board : v.board = w.board
  phase : v.phase = w.phase
  registers : v.registers = w.registers
  player : v.player = w.player.tumbled v.player.body.rotation v.player.body.spin
  contacts : v.contacts = w.contacts
  complete : v.complete = w.complete

def restage (w : World) (b : Backstage) : World :=
  { w with
    config := { w.config with fallSeed := b.fallSeed }
    player := w.player.tumbled b.rotation b.spin
    timers := b.timers
    words := b.words
    time := b.time
    tick := b.tick }

variable {w v : World} (b : Backstage)

theorem similar_restage (w : World) : Similar w (w.restage b) :=
  ⟨rfl, rfl, rfl, rfl, rfl, rfl, rfl⟩

theorem Similar.exists_restage (similar : Similar w v) : ∃ b, v = w.restage b := by
  obtain ⟨settings, board, phase, registers, player, contacts, complete⟩ := similar
  refine ⟨⟨v.config.fallSeed, v.player.body.rotation, v.player.body.spin, v.timers, v.words,
    v.time, v.tick⟩, ?_⟩
  cases v
  simp only at settings board phase registers player contacts complete
  simp only [restage, ← settings, ← player, board, phase, registers, contacts, complete]

/-! ## The stages of a tick -/

theorem tickClock_restage : ∃ c, (w.restage b).tickClock = w.tickClock.restage c :=
  ⟨{ b with tick := b.tick + 1, time := b.time + Binary64.widen w.config.dt }, rfl⟩

theorem move_restage :
    ∃ c, (w.restage b).move = w.move.map fun moved => (moved.1, moved.2.restage c) := by
  have speed : (w.restage b).player.body.horizontalSpeed = w.player.body.horizontalSpeed := rfl
  have moving : (w.restage b).player.isMoving = w.player.isMoving := rfl
  have floor : (w.restage b).board.cells.hasFloorAt (w.restage b).player.position
      = w.board.cells.hasFloorAt w.player.position := rfl
  unfold move
  rw [moving, floor]
  split
  · exact ⟨b, rfl⟩
  · split
    · exact ⟨b, rfl⟩
    · -- The words decide about the spin, and the spin about nothing.
      cases usable : Tumble.usable w.player.body.horizontalSpeed with
      | true =>
        let spun := Tumble.draw w.player.body.horizontalSpeed b.words
        refine ⟨{ b with spin := spun.1, words := spun.2 }, ?_⟩
        simp only [Player.startFall, speed, usable, if_true]
        rfl
      | false =>
        refine ⟨b, ?_⟩
        simp only [Player.startFall, speed, usable, Bool.false_eq_true, if_false]
        rfl

theorem resolveMovement_of_free (free : w.player.cooldown ≤ 0) : w.resolveMovement = w.move := by
  simp [resolveMovement, Player.tickCooldown, free]

theorem resolveMovement_restage :
    ∃ c, (w.restage b).resolveMovement
      = w.resolveMovement.map fun moved => (moved.1, moved.2.restage c) := by
  by_cases free : w.player.cooldown ≤ 0
  · have free' : (w.restage b).player.cooldown ≤ 0 := free
    rw [resolveMovement_of_free free, resolveMovement_of_free free']
    exact move_restage b
  · have kept : ¬ (w.restage b).player.cooldown ≤ 0 := free
    rw [resolveMovement_of_held free, resolveMovement_of_held kept]
    exact ⟨b, rfl⟩

theorem integrate_restage : ∃ c, (w.restage b).integrate = w.integrate.restage c :=
  ⟨{ b with rotation := (w.restage b).integrate.player.body.rotation }, rfl⟩

theorem runEffect_restage (tile : TileId) (effect : Effect) :
    ∃ c, (w.restage b).runEffect tile effect
      = ((w.runEffect tile effect).1, (w.runEffect tile effect).2.restage c) := by
  cases effect with
  | passive => exact ⟨b, rfl⟩
  | turn d => exact ⟨b, rfl⟩
  -- The timer is started behind the scenes, and the rest of the effect is in front of them.
  | operate r o n =>
    exact ⟨{ b with timers := (b.timers.start b.time (w.player.crossingTime tileSize) tile).2 }, rfl⟩
  | condition passed => cases passed <;> exact ⟨b, rfl⟩
  | teleport g =>
    have exit : (w.restage b).exit? g = w.exit? g := rfl
    simp only [runEffect, exit]
    split <;> exact ⟨b, rfl⟩
  | complete => exact ⟨{ b with spin := .zero }, rfl⟩

theorem dispatch_restage (tile : TileId) :
    ∃ c, (w.restage b).dispatch tile = ((w.dispatch tile).1, (w.dispatch tile).2.restage c) := by
  have board : (w.restage b).board.tile? tile = w.board.tile? tile := rfl
  cases lookup : w.board.tile? tile with
  | none => exact ⟨b, by simp only [dispatch, board, lookup]⟩
  | some t =>
    cases effect : t.kind.hasEffect with
    | false => exact ⟨b, by simp [dispatch, board, lookup, effect]⟩
    | true =>
      have skip : (w.restage b).player.skipArmed = w.player.skipArmed := rfl
      cases armed : w.player.skipArmed with
      | true =>
        refine ⟨b, ?_⟩
        simp only [dispatch, board, lookup, effect, Player.takeSkip, skip, armed, if_true]
        rfl
      | false =>
        simp only [dispatch, board, lookup, effect, Player.takeSkip, skip, armed, if_true,
          Bool.false_eq_true, if_false]
        exact runEffect_restage b tile _

theorem enter_restage (tile : TileId) :
    ∃ c, (w.restage b).enter tile = ((w.enter tile).1, (w.enter tile).2.restage c) := by
  have admits : (w.restage b).admits = w.admits := rfl
  simp only [enter, admits]
  split
  · exact dispatch_restage b tile
  · exact ⟨b, rfl⟩

theorem enterAll_restage (tiles : List TileId) :
    ∃ c, (w.restage b).enterAll tiles = ((w.enterAll tiles).1, (w.enterAll tiles).2.restage c) := by
  -- Every tile may leave something else behind the scenes for the rest.
  induction tiles generalizing w b with
  | nil => exact ⟨b, rfl⟩
  | cons tile rest ih =>
    obtain ⟨c, entered⟩ := enter_restage (w := w) b tile
    obtain ⟨d, later⟩ := ih (w := (w.enter tile).2) c
    exact ⟨d, by simp only [enterAll, entered, later]⟩

theorem resolveContacts_restage :
    ∃ c, (w.restage b).resolveContacts
      = (w.resolveContacts.1, w.resolveContacts.2.restage c) :=
  enterAll_restage (w := w.arrive) b w.entered

@[simp] theorem lasting_gemRestored (tiles : List TileId) : lasting (tiles.map .gemRestored) = [] := by
  simp [lasting, isRestore]

@[simp] theorem lasting_handOver :
    lasting (w.restage b).handOver.1 = lasting w.handOver.1 := by
  have restored (u : World) : lasting u.resolveTimers.1 = [] := lasting_gemRestored _
  have changes : (w.restage b).resolveTimers.2.drainChanges.1 = w.resolveTimers.2.drainChanges.1 :=
    rfl
  simp only [handOver, changes, lasting, List.filter_append]
  exact congrArg (· ++ _) ((restored _).trans (restored _).symm)

theorem handOver_restage : ∃ c, (w.restage b).handOver.2 = w.handOver.2.restage c :=
  ⟨{ b with timers := (b.timers.takeDue b.time).2 }, rfl⟩

/-- Two outcomes of an operation, or of a run: the same failure, or similar worlds after events that
look the same. -/
inductive SameCourse {α β : Type} (look : α → β) :
    Except Fault (α × World) → Except Fault (α × World) → Prop where
  | fails {fault : Fault} : SameCourse look (.error fault) (.error fault)
  | goes {told told' : α} {w v : World} : look told = look told' → Similar w v →
      SameCourse look (.ok (told, w)) (.ok (told', v))

theorem advance_eq (w : World) : w.advance = w.tickClock.resolveMovement.map fun moved =>
    (moved.1 ++ moved.2.integrate.resolveContacts.1 ++ moved.2.integrate.resolveContacts.2.handOver.1,
      moved.2.integrate.resolveContacts.2.handOver.2) := by
  cases movement : w.tickClock.resolveMovement with
  | error fault => simp [advance, movement, bind, Except.bind, Except.map]
  | ok moved => simp [advance, movement, handOver, bind, Except.bind, pure, Except.pure, Except.map]

theorem advance_restage : SameCourse lasting w.advance (w.restage b).advance := by
  -- Each stage of the tick passes something else on behind the scenes.
  obtain ⟨b₁, ticked⟩ := tickClock_restage (w := w) b
  obtain ⟨b₂, moved⟩ := resolveMovement_restage (w := w.tickClock) b₁
  rw [advance_eq, advance_eq, ticked, moved]
  cases w.tickClock.resolveMovement with
  | error fault => exact .fails
  | ok result =>
    obtain ⟨told, u⟩ := result
    obtain ⟨b₃, integrated⟩ := integrate_restage (w := u) b₂
    obtain ⟨b₄, entered⟩ := resolveContacts_restage (w := u.integrate) b₃
    obtain ⟨b₅, handed⟩ := handOver_restage (w := u.integrate.resolveContacts.2) b₄
    simp only [Except.map, integrated, entered, handed]
    refine .goes ?_ (similar_restage b₅ _)
    simp only [lasting, List.filter_append]
    exact congrArg (_ ++ ·) (lasting_handOver b₄).symm

/-! ## Whole operations -/

theorem onPhase_tumbled (p : Player) (rotation : Quaternion) (spin : Vec3) (target : Phase) :
    ∃ rotation' spin', PhaseListener.onPhase target (p.tumbled rotation spin)
      = (PhaseListener.onPhase target p).tumbled rotation' spin' := by
  have known : (p.tumbled rotation spin).phase = p.phase := rfl
  simp only [PhaseListener.onPhase, known]
  split
  · exact ⟨rotation, spin, rfl⟩
  · -- The respawn forgets how the body was turned and spun.
    exact ⟨p.spawn.rotation, .zero, rfl⟩

theorem changePhase_of_other {target : Phase} (other : w.phase ≠ target) :
    w.changePhase target = (w.restartEvents target,
      { w with
        phase := target
        registers := (target.prepare w.registers).drain.2
        player := PhaseListener.onPhase target w.player
        contacts := PhaseListener.onPhase target w.contacts
        timers := .none
        complete := false }) := by
  simp only [changePhase, Phase.change?, if_neg other]
  rfl

@[simp] theorem lasting_restartEvents (target : Phase) :
    lasting ((w.restage b).restartEvents target) = lasting (w.restartEvents target) := by
  have registers : (w.restage b).registers = w.registers := rfl
  simp only [restartEvents, registers, lasting, List.cons_append, List.filter_cons,
    List.filter_append]
  have gone (u : World) : (u.timers.takeAll.1.map gemRestored).filter (!·.isRestore) = [] :=
    lasting_gemRestored _
  rw [gone, gone]

theorem changePhase_restage (target : Phase) :
    lasting (w.changePhase target).1 = lasting ((w.restage b).changePhase target).1 ∧
      ∃ c, ((w.restage b).changePhase target).2 = (w.changePhase target).2.restage c := by
  by_cases same : w.phase = target
  · subst same
    have again : (w.restage b).changePhase w.phase = ([], w.restage b) := changePhase_self _
    rw [changePhase_self, again]
    exact ⟨rfl, b, rfl⟩
  · have other : (w.restage b).phase ≠ target := same
    obtain ⟨rotation, spin, player⟩ := onPhase_tumbled w.player b.rotation b.spin target
    have player : PhaseListener.onPhase target (w.restage b).player
        = (PhaseListener.onPhase target w.player).tumbled rotation spin := player
    rw [changePhase_of_other same, changePhase_of_other other, player]
    exact ⟨(lasting_restartEvents b target).symm,
      { b with rotation := rotation, spin := spin, timers := .none }, rfl⟩

theorem edit_restage (tile : TileId) (e : Edit) :
    (w.restage b).edit tile e = (w.edit tile e).map fun edited => (edited.1, edited.2.restage b) := by
  have same : (w.restage b).editable tile = w.editable tile := rfl
  cases checked : w.editable tile with
  | error cause =>
    rw [edit_of_not_editable checked, edit_of_not_editable (same.trans checked)]
    rfl
  | ok t =>
    rw [edit_of_editable e checked, edit_of_editable e (same.trans checked)]
    cases e.onTile tile t <;> rfl

theorem perform_restage (c : Command) :
    SameCourse lasting (w.perform c) ((w.restage b).perform c) := by
  cases c with
  | step =>
    have phase : (w.restage b).phase = w.phase := rfl
    simp only [perform, step, phase]
    split
    · exact .goes rfl (similar_restage b w)
    · exact advance_restage b
  | changePhase target =>
    obtain ⟨told, c, changed⟩ := changePhase_restage (w := w) b target
    exact .goes told (changed ▸ similar_restage c _)
  -- An edit is checked in front of the scenes, so it is refused in both worlds or in neither.
  | edit tile e =>
    simp only [perform, edit_restage]
    cases w.edit tile e with
    | ok edited => exact .goes rfl (similar_restage b edited.2)
    | error cause => exact .goes rfl (similar_restage b w)
  | changeSpeed delta => exact .goes rfl (similar_restage b (w.withPlayer (·.changeSpeed delta)))
  | setSpeed speed => exact .goes rfl (similar_restage b (w.withPlayer (·.setSpeed speed)))

theorem Similar.run (similar : Similar w v) (commands : List Command) :
    SameCourse (List.map lasting) (w.run commands) (v.run commands) := by
  -- What two similar worlds are after an operation is similar again, if there is anything.
  induction commands generalizing w v with
  | nil => exact .goes rfl similar
  | cons c rest ih =>
    obtain ⟨b, rfl⟩ := similar.exists_restage
    have here := perform_restage (w := w) b c
    simp only [World.run]
    generalize w.perform c = first, (w.restage b).perform c = second at here
    cases here with
    | fails => exact .fails
    | @goes events events' u u' same similar =>
      have there := ih similar
      simp only [bind, Except.bind]
      generalize u.run rest = first, u'.run rest = second at there
      cases there with
      | fails => exact .fails
      | goes later similar =>
        refine .goes ?_ similar
        rw [List.map_cons, List.map_cons, same, later]

/-! ## Runs over again -/

variable {board : Board} {spawn : Pose} {config : SimConfig} {words : WordSource}

theorem play_of_seed (words' : WordSource) (seed : Option UInt64) (commands : List Command) :
    SameCourse (List.map lasting) (play board spawn config words commands)
      (play board spawn { config with fallSeed := seed } words' commands) := by
  cases player : Player.spawned spawn config.initialSpeed config.maxSpeed with
  | error fault =>
    have failed (words : WordSource) (seed : Option UInt64) :
        play board spawn { config with fallSeed := seed } words commands = .error fault := by
      simp [play, opened, player, bind, Except.bind]
    rw [failed words' seed, show play board spawn config words commands = _ from failed words _]
    exact .fails
  | ok p =>
    have started (words : WordSource) (seed : Option UInt64) :
        play board spawn { config with fallSeed := seed } words commands
          = World.run ⟨{ config with fallSeed := seed }, board, .editing, .fresh, p, .none, .none,
            words, false, 0, 0⟩ commands := by
      simp [play, opened, player, bind, Except.bind, pure, Except.pure]
    rw [started words' seed, show play board spawn config words commands = _ from started words _]
    -- The seed only decides about the words, and both are behind the scenes from the start.
    refine Similar.run ?_ commands
    exact ⟨rfl, rfl, rfl, rfl, rfl, rfl, rfl⟩

/-- Worlds in authoring with one opening, one board and one speed: nothing else is left of what was
run in them before. -/
theorem similar_of_editing {p : Player} (settled : w.Settled) (settled' : v.Settled)
    (remembers : Remembers spawn config w) (remembers' : Remembers spawn config v)
    (made : Player.spawned spawn config.initialSpeed config.maxSpeed = .ok p)
    (editing : w.phase = .editing) (editing' : v.phase = .editing) (board : v.board = w.board)
    (speed : v.player.speed = w.player.speed) :
    Similar (w.changePhase .running).2 (v.changePhase .running).2 := by
  have other : w.phase ≠ .running := by simp [editing]
  have other' : v.phase ≠ .running := by simp [editing']
  -- A restart takes registers, player and contacts back to the opening, and board and speed are the same.
  have registers : (v.restart .running).registers = (w.restart .running).registers :=
    (settled'.registers_restart other').trans (settled.registers_restart other).symm
  have player : (v.restart .running).player = (w.restart .running).player := by
    rw [remembers.player_restart made, remembers'.player_restart made, speed]
  have settings : v.config = w.config := remembers'.settings.trans remembers.settings.symm
  rw [changePhase_of_ne settled.told other, changePhase_of_ne settled'.told other']
  exact
    { settings := by simp [restart, settings]
      board := board
      phase := rfl
      registers := registers
      player := by rw [player]; rfl
      contacts := rfl
      complete := rfl }

theorem Remembers.run (remembers : Remembers spawn config w) (settled : w.Settled)
    {commands : List Command} {told : List (List Event)} (ran : w.run commands = .ok (told, v)) :
    v.Settled ∧ Remembers spawn config v := by
  refine settled.run_preserves (fun _ u => Remembers spawn config u) ?_ [] remembers ran
  intro past u x c events _ remembers performs
  exact remembers.performs performs

theorem changePhase_keeps (settled : w.Settled) (target : Phase) :
    (w.changePhase target).2.board = w.board ∧
    (w.changePhase target).2.player.speed = w.player.speed ∧
    (w.changePhase target).2.phase = target := by
  by_cases same : w.phase = target
  · subst same
    rw [changePhase_self]
    exact ⟨rfl, rfl, rfl⟩
  · rw [changePhase_of_ne settled.told same]
    exact ⟨rfl, rfl, rfl⟩

theorem Performs.board_eq {c : Command} {events : List Event} (performs : Performs w c events v)
    (unedited : ∀ tile e, c ≠ .edit tile e) : v.board = w.board := by
  cases performs with
  | ticks _ ticks => exact ticks.sameStage.board
  | edits => exact absurd rfl (unedited _ _)
  | _ => rfl

theorem board_of_unedited (settled : w.Settled) {commands : List Command}
    {told : List (List Event)} (ran : w.run commands = .ok (told, v))
    (unedited : ∀ tile e, .edit tile e ∉ commands) : v.board = w.board := by
  induction commands generalizing w told with
  | nil =>
    cases ran
    rfl
  | cons c rest ih =>
    obtain ⟨events, u, more, first, later, -⟩ := run_cons_eq_ok ran
    have kept := ih (settled.perform first) later
      fun tile e member => unedited tile e (List.mem_cons_of_mem _ member)
    have same := (settled.performs first).board_eq
      fun tile e edit => unedited tile e (edit ▸ List.mem_cons_self)
    exact kept.trans same

/-- Runs alike. Similar worlds run alike and refuse the same edits for the same causes; a world is
opened alike for every seed; and after any run a stage that is run again on the same board at the
same speed runs as it did the first time. -/
theorem run_alike :
    (∀ {w v : World}, Similar w v →
      (∀ commands, SameCourse (List.map lasting) (w.run commands) (v.run commands)) ∧
      ∀ tile e, (v.edit tile e).map Prod.fst = (w.edit tile e).map Prod.fst) ∧
    (∀ board spawn config words words' seed commands,
      SameCourse (List.map lasting) (play board spawn config words commands)
        (play board spawn { config with fallSeed := seed } words' commands)) ∧
    ∀ {board spawn config words before told w between told' u},
      play board spawn config words before = .ok (told, w) → w.run between = .ok (told', u) →
      w.phase = .editing → u.board = w.board → u.player.speed = w.player.speed →
      ∀ commands, SameCourse (List.map lasting) ((w.changePhase .running).2.run commands)
        (((u.changePhase .editing).2.changePhase .running).2.run commands) := by
  refine ⟨?_, ?_, ?_⟩
  · intro w v similar
    refine ⟨similar.run, fun tile e => ?_⟩
    obtain ⟨b, rfl⟩ := similar.exists_restage
    rw [edit_restage]
    cases w.edit tile e <;> rfl
  · intro board spawn config words words' seed commands
    exact play_of_seed words' seed commands
  · intro board spawn config words before told w between told' u played ran editing board speed
      commands
    obtain ⟨start, made, -⟩ := play_eq_ok played
    obtain ⟨p, player, -⟩ := opened_eq_ok made
    have settled := (reachable_of_play played).settled
    have remembers := remembers_of_play played
    obtain ⟨settled', remembers'⟩ := remembers.run settled ran
    obtain ⟨sameBoard, sameSpeed, editing'⟩ := changePhase_keeps settled' .editing
    have stopped : u.perform (.changePhase .editing) = .ok (u.changePhase .editing) := rfl
    refine Similar.run ?_ commands
    exact similar_of_editing settled (settled'.perform stopped) remembers
      (remembers'.performs (settled'.performs stopped)) player editing editing'
      (sameBoard.trans board) (sameSpeed.trans speed)

/-- A gem that is still hidden from the first run does not show in the second. -/
theorem gem_hides_again :
    ∃ told w told' u, play row ⟨⟨0, 0.5, 2⟩, .identity⟩ .standard (.stepping 0 1) [] = .ok (told, w) ∧
      w.run [.changePhase .running, .step] = .ok (told', u) ∧ u.timers.pending ≠ [] ∧
      SameCourse (List.map lasting) ((w.changePhase .running).2.run [.step, .step])
        (((u.changePhase .editing).2.changePhase .running).2.run [.step, .step]) ∧
      SameCourse (List.map lasting) (u.run [.step])
        ((u.restage ⟨none, .identity, .zero, .none, .stepping 1 1, 1000, 7⟩).run [.step]) := by
  have hides : (play row ⟨⟨0, 0.5, 2⟩, .identity⟩ .standard (.stepping 0 1) []).toOption.any (fun played =>
      decide (played.2.phase = .editing) &&
      (played.2.run [.changePhase .running, .step]).toOption.any (fun ran =>
        decide (ran.2.player.speed = played.2.player.speed ∧ ran.2.timers.pending ≠ []))) = true := by
    decide +kernel
  obtain ⟨⟨told, w⟩, played, checked⟩ := exists_of_any hides
  obtain ⟨editing, checked⟩ := Bool.and_eq_true_iff.mp checked
  obtain ⟨⟨told', u⟩, ran, checked⟩ := exists_of_any checked
  obtain ⟨speed, pending⟩ := of_decide_eq_true checked
  have settled := (reachable_of_play played).settled
  have board := board_of_unedited settled ran (by simp)
  refine ⟨told, w, told', u, played, ran, pending, ?_, ?_⟩
  · exact run_alike.2.2 played ran (of_decide_eq_true editing) board speed _
  · exact (run_alike.1 (similar_restage _ u)).1 _

end World
end Tilewalk
