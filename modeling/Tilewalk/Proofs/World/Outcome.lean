import Tilewalk.Proofs.World.Skipping

/-! The outcome of a run: the player falls, or it reaches the goal. Either is told at most once between
two changes of phase, nothing is told of a tile afterwards, and what the tiles have made of the player
and the registers stays as it is until the phase changes. -/

set_option autoImplicit false

namespace Tilewalk

namespace Event

def isOutcome : Event → Bool
  | fallStarted | levelComplete => true
  | _ => false

def Quiet (event : Event) : Prop := event.isTile = false ∧ event.isOutcome = false

theorem quiet_of_routine {event : Event} (routine : event.isRoutine = true) : event.Quiet := by
  cases event with
  | gemRestored => exact ⟨rfl, rfl⟩
  | variableChanged => exact ⟨rfl, rfl⟩
  | _ => cases routine

def EndsQuietly (told : List Event) : Prop :=
  told.Pairwise fun first later => first.isOutcome = true → later.Quiet

theorem not_exists_outcome {told : List Event} (plain : ∀ event ∈ told, event.isOutcome = false) :
    ¬ ∃ event ∈ told, event.isOutcome = true := by
  rintro ⟨event, member, outcome⟩
  cases (plain event member).symm.trans outcome

theorem endsQuietly_of_plain {told : List Event} (plain : ∀ event ∈ told, event.isOutcome = false) :
    EndsQuietly told := by
  refine List.pairwise_of_forall_mem_list fun first member later _ outcome => ?_
  cases (plain first member).symm.trans outcome

theorem EndsQuietly.append {past told : List Event} (before : EndsQuietly past)
    (after : EndsQuietly told)
    (quiet : (∃ event ∈ past, event.isOutcome = true) → ∀ event ∈ told, event.Quiet) :
    EndsQuietly (past ++ told) :=
  List.pairwise_append.mpr
    ⟨before, after, fun first early later late outcome => quiet ⟨first, early, outcome⟩ later late⟩

theorem EndsQuietly.count_le_one {told : List Event} (ends : EndsQuietly told) :
    told.countP isOutcome ≤ 1 := by
  -- Nothing after the first outcome is one, so the rest adds nothing to the count.
  induction told with
  | nil => simp
  | cons event rest ih =>
    obtain ⟨quiet, ends⟩ := List.pairwise_cons.mp ends
    cases outcome : event.isOutcome with
    | false => simpa [outcome] using ih ends
    | true =>
      have none : rest.countP isOutcome = 0 :=
        List.countP_eq_zero.mpr fun later member => by simp [(quiet later member outcome).2]
      simp [outcome, none]

end Event

namespace World

open Event

def Ended (w : World) : Prop := w.player.isFalling = true ∨ w.complete = true

/-- Nothing that tiles do shows a difference between the worlds. -/
structure SameResult (w u : World) : Prop where
  registers : ∀ r, u.registers.get r = w.registers.get r
  heading : u.player.heading = w.player.heading
  skipArmed : u.player.skipArmed = w.player.skipArmed
  complete : u.complete = w.complete

theorem SameResult.refl (w : World) : SameResult w w := ⟨fun _ => rfl, rfl, rfl, rfl⟩

theorem SameResult.trans {w u v : World} (first : SameResult w u) (second : SameResult u v) :
    SameResult w v :=
  ⟨fun r => (second.registers r).trans (first.registers r), second.heading.trans first.heading,
    second.skipArmed.trans first.skipArmed, second.complete.trans first.complete⟩

variable {w u : World} {past : List Event}

theorem Coherent.rests_of_ended (coherent : w.Coherent) (ended : w.Ended) :
    w.player.isMoving = false := by
  rcases ended with falling | finished
  · cases moving : w.player.isMoving with
    | false => rfl
    | true => cases falling.symm.trans (coherent.steady.grounded moving)
  · exact coherent.rests finished

theorem admits_of_rests (rests : w.player.isMoving = false) : w.admits = false := by
  simp [admits, rests]

/-! ## One tick -/

theorem Moves.sameResult {events : List Event} (moves : Moves w events u) : SameResult w u := by
  cases moves <;> exact ⟨fun _ => rfl, rfl, rfl, rfl⟩

theorem sameResult_arrive (w : World) : SameResult w w.integrate.arrive :=
  ⟨fun _ => rfl, rfl, rfl, rfl⟩

theorem sameResult_handOver (w : World) : SameResult w w.handOver.2 :=
  ⟨Registers.get_drain w.registers, rfl, rfl, rfl⟩

theorem quiet_handOver (w : World) : ∀ event ∈ w.handOver.1, event.Quiet :=
  fun event member => quiet_of_routine (routine_of_handed event member)

theorem Acts.outcome {tile : TileId} {event : Event} (acts : Acts w tile event u) :
    event.isOutcome = false ∧ (u.Ended ↔ w.Ended) ∨
      event = .levelComplete ∧ u.complete = true ∧ u.admits = false := by
  cases acts with
  | completes => exact .inr ⟨rfl, rfl, rfl⟩
  | _ => exact .inl ⟨rfl, Iff.rfl⟩

theorem Enters.outcome {tiles : List TileId} {acts : List (TileId × Event)}
    (enters : Enters w tiles acts u) :
    (∀ act ∈ acts, act.2.isOutcome = false) ∧ (u.Ended ↔ w.Ended) ∨
      ∃ before tile v, acts = before ++ [(tile, .levelComplete)] ∧
        (∀ act ∈ before, act.2.isOutcome = false) ∧ u.complete = true ∧
        (tile, v) ∈ w.dispatches tiles ∧ v.dispatch tile = (some .levelComplete, u) := by
  -- An act before the goal leaves it open whether the run has ended, and so it is passed through.
  induction enters with
  | done => exact .inl ⟨by simp, Iff.rfl⟩
  | passed refused _ ih =>
    simpa [World.dispatches, enter, refused] using ih
  | @acted w v last tile event rest acts admitted act others ih =>
    have dispatches : w.dispatches (tile :: rest) = (tile, w) :: v.dispatches rest := by
      simp [World.dispatches, enter, admitted, act.dispatch_eq]
    rcases act.outcome with ⟨plain, same⟩ | ⟨rfl, finished, refused⟩
    · rcases ih with ⟨plains, still⟩ | ⟨before, goal, x, rfl, plains, finished, member, ends⟩
      · refine .inl ⟨fun other member => ?_, still.trans same⟩
        rcases List.mem_cons.mp member with rfl | later
        · exact plain
        · exact plains other later
      · refine .inr ⟨(tile, event) :: before, goal, x, rfl, fun other member => ?_, finished, ?_, ends⟩
        · rcases List.mem_cons.mp member with rfl | later
          · exact plain
          · exact plains other later
        · rw [dispatches]
          exact List.mem_cons_of_mem _ member
    · -- The goal stops the player, so nothing that is entered after it acts.
      obtain ⟨rfl, rfl⟩ := others.eq_of_refused refused
      refine .inr ⟨[], tile, w, rfl, by simp, finished, ?_, act.dispatch_eq⟩
      rw [dispatches]
      exact List.mem_cons_self

/-- The events tell of the outcome that is new in the second world, and of nothing but quiet things
after it. -/
structure Reports (w : World) (events : List Event) (u : World) : Prop where
  quietly : EndsQuietly events
  ended : u.Ended ↔ w.Ended ∨ ∃ event ∈ events, event.isOutcome = true
  quiet : w.Ended → ∀ event ∈ events, event.Quiet

theorem reports_of_quiet {events : List Event} (quiet : ∀ event ∈ events, event.Quiet)
    (same : u.Ended ↔ w.Ended) : Reports w events u where
  quietly := endsQuietly_of_plain fun event member => (quiet event member).2
  ended :=
    same.trans (or_iff_left (not_exists_outcome fun event there => (quiet event there).2)).symm
  quiet := fun _ => quiet

theorem Reports.append {v : World} {first second : List Event} (before : Reports w first v)
    (after : Reports v second u) : Reports w (first ++ second) u where
  quietly := before.quietly.append after.quietly fun told => after.quiet (before.ended.mpr (.inr told))
  ended := by
    rw [after.ended, before.ended, or_assoc]
    simp [or_and_right, exists_or]
  quiet := fun ended event member => by
    rcases List.mem_append.mp member with early | late
    · exact before.quiet ended event early
    · exact after.quiet (before.ended.mpr (.inl ended)) event late

theorem Coherent.reports_moves (coherent : w.Coherent) {events : List Event}
    (moves : Moves w events u) : Reports w events u := by
  cases moves with
  | falls _ moving =>
    refine ⟨List.pairwise_singleton _ _, ?_, fun ended => ?_⟩
    · exact iff_of_true (.inl rfl) (.inr ⟨.fallStarted, by simp, rfl⟩)
    · cases moving.symm.trans (coherent.rests_of_ended ended)
  | _ => exact reports_of_quiet (by simp) Iff.rfl

theorem Coherent.reports_enters (coherent : w.Coherent) {tiles : List TileId}
    {acts : List (TileId × Event)} (enters : Enters w tiles acts u) :
    Reports w (acts.map (·.2)) u := by
  -- After an end the player rests, and no tile acts.
  have quiet : w.Ended → ∀ event ∈ acts.map (·.2), event.Quiet := by
    intro ended
    have refused := admits_of_rests (coherent.rests_of_ended ended)
    simp [(enters.eq_of_refused refused).1]
  have plainly {acts : List (TileId × Event)} (plain : ∀ act ∈ acts, act.2.isOutcome = false) :
      ∀ event ∈ acts.map (·.2), event.isOutcome = false := by
    intro event member
    obtain ⟨act, there, rfl⟩ := List.mem_map.mp member
    exact plain act there
  rcases enters.outcome with ⟨plain, same⟩ | ⟨before, tile, v, rfl, plain, finished, -⟩
  · refine ⟨endsQuietly_of_plain (plainly plain), ?_, quiet⟩
    exact same.trans (or_iff_left (not_exists_outcome (plainly plain))).symm
  · refine ⟨?_, iff_of_true (.inr finished) (.inr ⟨.levelComplete, by simp, rfl⟩), quiet⟩
    rw [List.map_append]
    exact (endsQuietly_of_plain (plainly plain)).append (List.pairwise_singleton _ _)
      fun told => absurd told (not_exists_outcome (plainly plain))

theorem Coherent.reports_ticks (coherent : w.Coherent) {events : List Event}
    (ticks : Ticks w events u) : Reports w events u := by
  cases ticks with
  | @mk moved v last acts moves enters =>
    have moved := coherent.tickClock.moves moves
    have first : Reports w _ v := { coherent.tickClock.reports_moves moves with }
    have second : Reports v _ last := { moved.integrate.arrive.reports_enters enters with }
    exact (first.append second).append (reports_of_quiet (quiet_handOver last) Iff.rfl)

/-! ## Runs -/

/-- What was told since the last change of phase accounts for the outcome. -/
structure Accounts (past : List Event) (w : World) : Prop where
  quietly : EndsQuietly past
  ended : w.Ended ↔ ∃ event ∈ past, event.isOutcome = true

theorem Accounts.append (accounts : Accounts past w) {events : List Event}
    (reports : Reports w events u) : Accounts (past ++ events) u where
  quietly := accounts.quietly.append reports.quietly fun told => reports.quiet (accounts.ended.mpr told)
  ended := by
    rw [reports.ended, accounts.ended]
    simp [or_and_right, exists_or]

theorem accounts_of_quiet (quiet : ∀ event ∈ past, event.Quiet) (going : ¬ w.Ended) :
    Accounts past w where
  quietly := endsQuietly_of_plain fun event member => (quiet event member).2
  ended := iff_of_false going (not_exists_outcome fun event there => (quiet event there).2)

theorem not_restarts_of_ticks {events : List Event} (ticks : Ticks w events u) :
    ∀ event ∈ events, ¬ event.Restarts := by
  intro event member
  rcases ticks.tells member with rfl | acted | routine
  · simp [Restarts]
  · exact not_restarts_of_isTile acted
  · exact (aside_of_routine routine).2

theorem Accounts.performs (accounts : Accounts (sinceRestart past) w) (settled : w.Settled)
    {c : Command} {events : List Event} (performs : Performs w c events u) :
    Accounts (sinceRestart (past ++ events)) u := by
  cases performs with
  | ticks _ ticks =>
    rw [sinceRestart_append (not_restarts_of_ticks ticks)]
    exact accounts.append (settled.reports_ticks ticks)
  | @restarts target =>
    have begins : sinceRestart (past ++ w.restartEvents target) = w.timers.takeAll.1.map gemRestored
        ++ (target.prepare w.registers).drain.1.map ofChange :=
      sinceRestart_append_restart fun event member =>
        (aside_of_routine (routine_of_handed event member)).2
    rw [begins]
    refine accounts_of_quiet (fun event member => ?_) (by simp [Ended, restart, Player.respawn])
    exact quiet_of_routine (routine_of_handed event member)
  | edits =>
    rw [sinceRestart_append (by simp [Restarts])]
    exact accounts.append (reports_of_quiet (by simp [Quiet, isTile, isOutcome]) Iff.rfl)
  | idles => rwa [List.append_nil]
  | stays => rwa [List.append_nil]
  | refuses => rwa [List.append_nil]
  | changesSpeed =>
    rw [List.append_nil]
    exact { accounts with }
  | setsSpeed =>
    rw [List.append_nil]
    exact { accounts with }

theorem accounts_of_play {board : Board} {spawn : Pose} {config : SimConfig} {words : WordSource}
    {commands : List Command} {told : List (List Event)}
    (played : play board spawn config words commands = .ok (told, w)) :
    Accounts (sinceRestart told.flatten) w := by
  refine play_preserves (fun past v => Accounts (sinceRestart past) v) ?_ ?_ played
  · intro start made
    obtain ⟨p, player, rfl⟩ := opened_eq_ok made
    exact accounts_of_quiet (by simp [sinceRestart]) (by simp [Ended, Player.eq_of_spawned player])
  · intro past v x c events settled accounts performs
    exact accounts.performs settled performs

theorem Settled.stays_ended (settled : w.Settled) (ended : w.Ended) {c : Command}
    {events : List Event} (performs : Performs w c events u)
    (stays : ∀ event ∈ events, ¬ event.Restarts) : u.Ended ∧ SameResult w u := by
  -- Only a change of phase begins anew; in a tick nothing acts on a player that rests.
  cases performs with
  | ticks _ ticks =>
    refine ⟨(settled.reports_ticks ticks).ended.mpr (.inl ended), ?_⟩
    cases ticks with
    | @mk moved v last acts moves enters =>
      have result := moves.sameResult
      have still := (settled.tickClock.reports_moves moves).ended.mpr (.inl ended)
      have rests := (settled.tickClock.moves moves).rests_of_ended still
      obtain ⟨-, rfl⟩ := enters.eq_of_refused (admits_of_rests rests)
      exact { (result.trans (sameResult_arrive v)).trans (sameResult_handOver _) with }
  | restarts => exact absurd ⟨_, rfl⟩ (stays _ List.mem_cons_self)
  | idles => exact ⟨ended, .refl w⟩
  | stays => exact ⟨ended, .refl w⟩
  | refuses => exact ⟨ended, .refl w⟩
  | edits => exact ⟨ended, { SameResult.refl w with }⟩
  | changesSpeed => exact ⟨ended, { SameResult.refl w with }⟩
  | setsSpeed => exact ⟨ended, { SameResult.refl w with }⟩

theorem Settled.sameResult_of_run (settled : w.Settled) (ended : w.Ended) {commands : List Command}
    {told : List (List Event)} (ran : w.run commands = .ok (told, u))
    (stays : ∀ event ∈ told.flatten, ¬ event.Restarts) : SameResult w u := by
  induction commands generalizing w told with
  | nil =>
    cases ran
    exact .refl _
  | cons c rest ih =>
    obtain ⟨events, v, more, first, later, rfl⟩ := run_cons_eq_ok ran
    rw [List.flatten_cons] at stays
    obtain ⟨still, here⟩ := settled.stays_ended ended (settled.performs first)
      fun event member => stays event (List.mem_append_left _ member)
    exact here.trans (ih (settled.perform first) still later
      fun event member => stays event (List.mem_append_right _ member))

theorem Enters.fallStarted_mem_iff {tiles : List TileId} {acts : List (TileId × Event)}
    (enters : Enters w tiles acts u) (moved : List Event) :
    .fallStarted ∈ moved ++ acts.map (·.2) ++ u.handOver.1 ↔ .fallStarted ∈ moved := by
  constructor
  · intro told
    rcases List.mem_append.mp told with early | late
    · rcases List.mem_append.mp early with before | acted
      · exact before
      · cases enters.isTile _ acted
    · cases (quiet_handOver u _ late).2
  · intro before
    exact List.mem_append_left _ (List.mem_append_left _ before)

/-- From the event on that tells of the outcome of a tick the rest of the tick changes nothing. -/
theorem Settled.sameResult_of_outcome (settled : w.Settled) (running : w.phase = .running)
    {events : List Event} (stepped : w.step = .ok (events, u)) :
    ∃ moved v, w.tickClock.resolveMovement = .ok (moved, v) ∧
      (.fallStarted ∈ events → moved = [.fallStarted] ∧ SameResult v u) ∧
      (.levelComplete ∈ events → ∃ d ∈ v.integrate.arrive.dispatches v.integrate.entered,
        (d.2.dispatch d.1).1 = some .levelComplete ∧ SameResult (d.2.dispatch d.1).2 u) := by
  obtain ⟨moved, v, acts, last, movement, moves, enters, rfl, rfl⟩ :=
    step_eq_ok running settled.rests stepped
  refine ⟨moved, v, movement, fun fell => ?_, fun reached => ?_⟩
  · have fell : .fallStarted ∈ moved := (enters.fallStarted_mem_iff moved).mp fell
    cases moves with
    | falls =>
      -- A falling player is past all tiles, so only the hand-over is left of the tick.
      obtain ⟨-, rfl⟩ := enters.eq_of_refused rfl
      exact ⟨rfl, (sameResult_arrive _).trans (sameResult_handOver _)⟩
    | _ => cases fell
  · have acted : .levelComplete ∈ acts.map (·.2) := by
      rcases List.mem_append.mp reached with early | late
      · rcases List.mem_append.mp early with moved | acted
        · cases (moves.aside _ moved).1
        · exact acted
      · cases (quiet_handOver last _ late).1
    rcases enters.outcome with ⟨plain, -⟩ | ⟨before, tile, x, -, -, -, member, goal⟩
    · obtain ⟨act, there, same⟩ := List.mem_map.mp acted
      cases (plain act there).symm.trans (congrArg isOutcome same)
    · refine ⟨(tile, x), member, congrArg Prod.fst goal, ?_⟩
      rw [goal]
      exact sameResult_handOver last

/-- The outcome of any run: since the last change of phase a fall or the goal is told at most once and
nothing of a tile after it; and from that event on, for the rest of its tick and through every further
operation until the phase changes, the registers, the heading, the skip and completion stay. -/
theorem outcome_is_final {board : Board} {spawn : Pose} {config : SimConfig} {words : WordSource}
    {commands : List Command} {told : List (List Event)}
    (played : play board spawn config words commands = .ok (told, w)) :
    (sinceRestart told.flatten).countP isOutcome ≤ 1 ∧
    (∀ before outcome after, sinceRestart told.flatten = before ++ outcome :: after →
      outcome.isOutcome = true → ∀ event ∈ after, event.isTile = false ∧ event ≠ .fallStarted) ∧
    (∀ events u, w.phase = .running → w.step = .ok (events, u) →
      ∃ moved v, w.tickClock.resolveMovement = .ok (moved, v) ∧
        (.fallStarted ∈ events → moved = [.fallStarted] ∧ SameResult v u) ∧
        (.levelComplete ∈ events → ∃ d ∈ v.integrate.arrive.dispatches v.integrate.entered,
          (d.2.dispatch d.1).1 = some .levelComplete ∧ SameResult (d.2.dispatch d.1).2 u)) ∧
    ∀ later told' u, (∃ event ∈ sinceRestart told.flatten, event.isOutcome = true) →
      w.run later = .ok (told', u) → (∀ event ∈ told'.flatten, ¬ event.Restarts) →
      SameResult w u := by
  have settled := (reachable_of_play played).settled
  have accounts := accounts_of_play played
  refine ⟨accounts.quietly.count_le_one, ?_, ?_, ?_⟩
  · intro before outcome after split found event member
    have quietly := accounts.quietly
    rw [split] at quietly
    have quiet := (List.pairwise_cons.mp (List.pairwise_append.mp quietly).2.1).1 event member found
    refine ⟨quiet.1, ?_⟩
    rintro rfl
    cases quiet.2
  · intro events u running stepped
    exact settled.sameResult_of_outcome running stepped
  · intro later told' u outcome ran stays
    exact settled.sameResult_of_run (accounts.ended.mpr outcome) ran stays

/-- Behind the destination of the row's teleport the floor ends. -/
theorem falls_behind_destination :
    ∃ told w told' u, onRow 3 (.setSpeed 10 :: List.replicate 8 .step) = .ok (told, w) ∧
      w.run [.step, .setSpeed 1, .step] = .ok (told', u) ∧
      sinceRestart told.flatten = [.teleported 3 4 0, .fallStarted] ∧ SameResult w u := by
  have falls : (onRow 3 (.setSpeed 10 :: List.replicate 8 .step)).toOption.any (fun played =>
      decide (sinceRestart played.1.flatten = [.teleported 3 4 0, .fallStarted]) &&
      (played.2.run [.step, .setSpeed 1, .step]).toOption.any (fun ran =>
        decide (ran.1.flatten = []))) = true := by
    decide +kernel
  obtain ⟨⟨told, w⟩, played, checked⟩ := exists_of_any falls
  obtain ⟨tells, checked⟩ := Bool.and_eq_true_iff.mp checked
  obtain ⟨⟨told', u⟩, ran, silent⟩ := exists_of_any checked
  have tells := of_decide_eq_true tells
  refine ⟨told, w, told', u, played, ran, tells, ?_⟩
  refine (outcome_is_final played).2.2.2 _ told' u ?_ ran ?_
  · rw [tells]
    exact ⟨.fallStarted, by simp, rfl⟩
  · rw [of_decide_eq_true silent]
    simp

end World
end Tilewalk
