import Tilewalk.Proofs.Trace
import Tilewalk.Proofs.World.Coherence

/-! The skip that a failed gate arms: in the trace of a run the next tile event, and no other, tells of
a skipped effect. -/

set_option autoImplicit false

namespace Tilewalk

namespace Event

def EndsFailed (trace : List Event) : Prop :=
  ∃ tile, trace.getLast? = some (conditionEvaluated tile false)

/-- Exactly the events right after a failed gate tell of a skipped effect. -/
def SkipsAfterFailure (trace : List Event) : Prop :=
  ∀ before event after, trace = before ++ event :: after →
    ((∃ tile, event = effectSkipped tile) ↔ EndsFailed before)

theorem endsFailed_concat {trace : List Event} {event : Event} :
    EndsFailed (trace ++ [event]) ↔ ∃ tile, event = conditionEvaluated tile false := by
  simp [EndsFailed]

theorem not_endsFailed_nil : ¬ EndsFailed [] := by
  rintro ⟨tile, last⟩
  cases last

theorem skipsAfterFailure_nil : SkipsAfterFailure [] := by
  intro before event after split
  simp at split

theorem SkipsAfterFailure.concat {trace : List Event} {event : Event}
    (skips : SkipsAfterFailure trace)
    (last : (∃ tile, event = effectSkipped tile) ↔ EndsFailed trace) :
    SkipsAfterFailure (trace ++ [event]) := by
  intro before other after split
  -- Either the place is the new end, or it lies in the old trace.
  rcases List.eq_nil_or_concat after with rfl | ⟨between, final, rfl⟩
  · obtain ⟨rfl, same⟩ := List.append_inj' split rfl
    cases same
    exact last
  · have shorter : trace ++ [event] = (before ++ other :: between) ++ [final] := by
      simpa using split
    exact skips before other between (List.append_inj' shorter rfl).1

end Event

namespace World

open Event

theorem Acts.isTile {w u : World} {tile : TileId} {event : Event} (acts : Acts w tile event u) :
    event.isTile = true := by
  cases acts <;> rfl

theorem Acts.skipped_iff {w u : World} {tile : TileId} {event : Event}
    (acts : Acts w tile event u) :
    (∃ other, event = .effectSkipped other) ↔ w.player.skipArmed = true := by
  cases acts with
  | skips _ _ armed => simp [armed]
  | _ => simp_all

theorem Acts.armed_iff {w u : World} {tile : TileId} {event : Event} (acts : Acts w tile event u) :
    u.player.skipArmed = true ↔ ∃ other, event = .conditionEvaluated other false := by
  cases acts with
  | skips => simp [withPlayer]
  | fails => simp [withPlayer, Player.armSkip]
  | turns _ unarmed => simpa [turnPlayer, Player.snap, Player.warp] using unarmed
  | computes _ unarmed => simpa [runOperation] using unarmed
  | passes _ unarmed => simpa using unarmed
  | strands _ unarmed => simpa using unarmed
  | jumps _ unarmed => simpa [jump, Player.startCooldown, Player.warp] using unarmed
  | completes _ unarmed => simpa [reachGoal, Player.stopAtGoal] using unarmed

/-- The trace so far accounts for the skip. -/
structure Tracks (past : List Event) (w : World) : Prop where
  skips : SkipsAfterFailure past
  armed : w.player.skipArmed = true ↔ EndsFailed past

variable {w u : World} {past : List Event}

theorem Tracks.acts (tracks : Tracks past w) {tile : TileId} {event : Event}
    (acts : Acts w tile event u) : Tracks (past ++ [event]) u where
  skips := tracks.skips.concat (acts.skipped_iff.trans tracks.armed)
  armed := acts.armed_iff.trans endsFailed_concat.symm

theorem Tracks.enters (tracks : Tracks past w) {tiles : List TileId}
    {acts : List (TileId × Event)} (enters : Enters w tiles acts u) :
    Tracks (past ++ acts.map (·.2)) u := by
  induction enters generalizing past with
  | done => simpa using tracks
  | passed _ _ ih => exact ih tracks
  | acted _ act _ ih => simpa using ih (tracks.acts act)

theorem Tracks.of_same_skip (tracks : Tracks past w)
    (same : u.player.skipArmed = w.player.skipArmed) : Tracks past u where
  skips := tracks.skips
  armed := by rw [same]; exact tracks.armed

theorem Moves.skipArmed {events : List Event} (moves : Moves w events u) :
    u.player.skipArmed = w.player.skipArmed := by
  cases moves <;> rfl

/-! ## Whole operations -/

theorem Moves.aside {events : List Event} (moves : Moves w events u) :
    ∀ event ∈ events, event.Aside := by
  cases moves with
  | falls => simp [Aside, isTile, Restarts]
  | _ => simp

theorem aside_handOver (w : World) : ∀ event ∈ w.handOver.1, event.Aside :=
  fun event member => aside_of_routine (routine_of_handed event member)

theorem Enters.isTile {tiles : List TileId} {acts : List (TileId × Event)}
    (enters : Enters w tiles acts u) : ∀ event ∈ acts.map (·.2), event.isTile = true := by
  induction enters with
  | done => simp
  | passed _ _ ih => exact ih
  | acted _ act _ ih =>
    intro event member
    rcases List.mem_cons.mp member with rfl | later
    · exact act.isTile
    · exact ih event later

theorem Ticks.tells {events : List Event} (ticks : Ticks w events u) {event : Event}
    (member : event ∈ events) :
    event = .fallStarted ∨ event.isTile = true ∨ event.isRoutine = true := by
  cases ticks with
  | mk moves enters =>
    rcases List.mem_append.mp member with early | late
    · rcases List.mem_append.mp early with moved | acted
      · cases moves with
        | falls => exact .inl (List.mem_singleton.mp moved)
        | _ => cases moved
      · exact .inr (.inl (enters.isTile event acted))
    · exact .inr (.inr (routine_of_handed event late))

theorem Tracks.ticks (tracks : Tracks (trace past) w) {events : List Event}
    (ticks : Ticks w events u) : Tracks (trace (past ++ events)) u := by
  cases ticks with
  | @mk moved mid last acts moves enters =>
    -- Of all that a tick tells only the entered tiles belong to the trace.
    rw [trace_append_between moves.aside enters.isTile (aside_handOver last)]
    have ready : Tracks (trace past) mid.integrate.arrive := tracks.of_same_skip moves.skipArmed
    exact (ready.enters enters).of_same_skip rfl

@[simp] theorem trace_append_restartEvents (target : Phase) :
    trace (past ++ w.restartEvents target) = [] := by
  have aside : ∀ event ∈ w.timers.takeAll.1.map gemRestored
      ++ (target.prepare w.registers).drain.1.map ofChange, event.Aside :=
    fun event member => aside_of_routine (routine_of_handed event member)
  rw [restartEvents, List.cons_append, trace_append_restart fun event member => (aside event member).2]
  exact filter_isTile_of_aside aside

theorem tracks_nil (unarmed : w.player.skipArmed = false) : Tracks [] w where
  skips := skipsAfterFailure_nil
  armed := by simp [unarmed, not_endsFailed_nil]

theorem Tracks.performs (tracks : Tracks (trace past) w) {c : Command} {events : List Event}
    (performs : Performs w c events u) : Tracks (trace (past ++ events)) u := by
  cases performs with
  | ticks _ ticks => exact tracks.ticks ticks
  | restarts =>
    simpa using tracks_nil rfl
  | edits =>
    rw [trace_append_aside (by simp [Aside, isTile, Restarts])]
    exact tracks.of_same_skip rfl
  | idles => rwa [List.append_nil]
  | stays => rwa [List.append_nil]
  | refuses => rwa [List.append_nil]
  | changesSpeed =>
    rw [List.append_nil]
    exact tracks.of_same_skip rfl
  | setsSpeed =>
    rw [List.append_nil]
    exact tracks.of_same_skip rfl

theorem tracks_of_play {board : Board} {spawn : Pose} {config : SimConfig} {words : WordSource}
    {commands : List Command} {told : List (List Event)}
    (played : play board spawn config words commands = .ok (told, w)) :
    Tracks (trace told.flatten) w := by
  refine play_preserves (fun past v => Tracks (trace past) v) ?_ ?_ played
  · intro start made
    obtain ⟨p, player, rfl⟩ := opened_eq_ok made
    exact tracks_nil (by simp [Player.eq_of_spawned player])
  · intro past v x c events _ tracks performs
    exact tracks.performs performs

theorem filter_isTile_step (settled : w.Settled) (running : w.phase = .running)
    {events : List Event} (stepped : w.step = .ok (events, u)) :
    ∃ moved v, w.tickClock.resolveMovement = .ok (moved, v) ∧
      (events.filter isTile).map some = (v.integrate.arrive.dispatches v.integrate.entered).map
        fun d => (d.2.dispatch d.1).1 := by
  obtain ⟨moved, v, acts, last, movement, moves, enters, rfl, -⟩ :=
    step_eq_ok running settled.rests stepped
  refine ⟨moved, v, movement, ?_⟩
  rw [filter_isTile_between moves.aside enters.isTile (aside_handOver last), List.map_map]
  have each := congrArg (List.map Prod.snd) enters.dispatches
  simpa [Function.comp_def] using each.symm

theorem enter_eq_of_idle {tile : TileId}
    (idle : w.admits = false ∨ ∀ kind, w.board.kind? tile = some kind → kind.hasEffect = false) :
    w.enter tile = (none, w) := by
  rcases idle with refused | passive
  · simp [enter, refused]
  · have dispatched : w.dispatch tile = (none, w) := by
      cases lookup : w.board.tile? tile with
      | none => simp [dispatch, lookup]
      | some t => simp [dispatch, lookup, passive t.kind (by simp [Board.kind?, lookup])]
    cases admitted : w.admits with
    | true => simp [enter, admitted, dispatched]
    | false => simp [enter, admitted]

/-- The skip in any run: a skipped effect is told right after a failed gate and nowhere else, a tile
that is dispatched tells of itself once, any other leaves the skip alone, and a change of phase disarms
it. -/
theorem skips_follow_failed_gates {board : Board} {spawn : Pose} {config : SimConfig}
    {words : WordSource} {commands : List Command} {told : List (List Event)}
    (played : play board spawn config words commands = .ok (told, w)) :
    SkipsAfterFailure (trace told.flatten) ∧
    (w.player.skipArmed = true ↔ EndsFailed (trace told.flatten)) ∧
    (∀ target, w.phase ≠ target →
      trace (told.flatten ++ (w.changePhase target).1) = [] ∧
        (w.changePhase target).2.player.skipArmed = false) ∧
    (∀ events u, w.phase = .running → w.step = .ok (events, u) →
      ∃ moved v, w.tickClock.resolveMovement = .ok (moved, v) ∧
        (events.filter isTile).map some = (v.integrate.arrive.dispatches v.integrate.entered).map
          fun d => (d.2.dispatch d.1).1) ∧
    ∀ (v : World) (tile : TileId), (v.admits = false ∨
      ∀ kind, v.board.kind? tile = some kind → kind.hasEffect = false) → v.enter tile = (none, v) := by
  have tracks := tracks_of_play played
  have settled := (reachable_of_play played).settled
  refine ⟨tracks.skips, tracks.armed, ?_, ?_, ?_⟩
  · intro target other
    rw [changePhase_of_ne settled.told other]
    exact ⟨trace_append_restartEvents target, rfl⟩
  · intro events u running stepped
    exact filter_isTile_step settled running stepped
  · intro v tile idle
    exact enter_eq_of_idle idle

theorem arrow_skipped_after_gate :
    ∃ told w, onRow 0 [.setSpeed 10, .step, .step, .step, .step] = .ok (told, w) ∧
      trace told.flatten = [.conditionEvaluated 0 false, .effectSkipped 1] ∧
      w.player.skipArmed = false := by
  have tells : (onRow 0 [.setSpeed 10, .step, .step, .step, .step]).toOption.any
      (fun played => decide (trace played.1.flatten
        = [.conditionEvaluated 0 false, .effectSkipped 1])) = true := by
    decide +kernel
  obtain ⟨⟨told, w⟩, played, traced⟩ := exists_of_any tells
  have ends : trace told.flatten = [.conditionEvaluated 0 false, .effectSkipped 1] :=
    of_decide_eq_true traced
  refine ⟨told, w, played, ends, Bool.eq_false_iff.mpr fun armed => ?_⟩
  have failed := (skips_follow_failed_gates played).2.1.mp armed
  rw [ends] at failed
  simp [EndsFailed] at failed

end World
end Tilewalk
