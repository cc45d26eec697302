import Tilewalk.Proofs.Authoring
import Tilewalk.Proofs.Player
import Tilewalk.Proofs.World.Tick

/-! What one operation does, whichever it is, and what runs of operations therefore keep. -/

set_option autoImplicit false

namespace Tilewalk

namespace World

/-- Phase, player, contacts, registers, timers and completion as an actual change of phase leaves
them. -/
def restart (w : World) (target : Phase) : World :=
  { w with
    phase := target
    registers := (target.prepare w.registers).drain.2
    player := { w.player.respawn with isMoving := decide (target = .running), phase := target }
    contacts := ⟨[], target⟩
    timers := .none
    complete := false }

def restartEvents (w : World) (target : Phase) : List Event :=
  .phaseChanged target :: w.timers.takeAll.1.map .gemRestored
    ++ (target.prepare w.registers).drain.1.map .ofChange

/-- The listeners know the phase that the world is in. -/
structure Told (w : World) : Prop where
  player : w.player.phase = w.phase
  contacts : w.contacts.phase = w.phase

@[simp] theorem changePhase_self (w : World) : w.changePhase w.phase = ([], w) := by
  simp [changePhase, Phase.change?]

theorem changePhase_of_ne {w : World} (told : w.Told) {target : Phase} (ne : w.phase ≠ target) :
    w.changePhase target = (w.restartEvents target, w.restart target) := by
  have player : PhaseListener.onPhase target w.player = (w.restart target).player := by
    have other : target ≠ w.player.phase := fun same => ne (told.player.symm.trans same.symm)
    simp [PhaseListener.onPhase, other, restart]
  have contacts : PhaseListener.onPhase target w.contacts = (w.restart target).contacts := by
    have other : target ≠ w.contacts.phase := fun same => ne (told.contacts.symm.trans same.symm)
    simp [PhaseListener.onPhase, other, restart]
  have listeners : PhaseListener.onPhase target (w.player, w.contacts)
      = ((w.restart target).player, (w.restart target).contacts) :=
    Prod.ext player contacts
  simp only [changePhase, Phase.change?, if_neg ne, listeners]
  rfl

@[simp] theorem board_of_changePhase (w : World) (target : Phase) :
    (w.changePhase target).2.board = w.board := by
  unfold changePhase
  split <;> rfl

/-- One operation: what it tells and the world after it. -/
inductive Performs (w : World) : Command → List Event → World → Prop where
  | idles : w.phase = .editing → Performs w .step [] w
  | ticks {u : World} {events : List Event} : w.phase = .running → Ticks w events u →
      Performs w .step events u
  | stays : Performs w (.changePhase w.phase) [] w
  | restarts {target : Phase} : w.phase ≠ target →
      Performs w (.changePhase target) (w.restartEvents target) (w.restart target)
  | refuses {tile : TileId} {e : Edit} {cause : EditError} : w.edit tile e = .error cause →
      Performs w (.edit tile e) [] w
  | edits {tile : TileId} {e : Edit} {t : Tile} {kind : TileKind} : w.phase = .editing →
      w.board.tile? tile = some t → e.onTile tile t = .ok kind →
      Performs w (.edit tile e) [.tileEdited tile] { w with board := w.board.setKind tile kind }
  | changesSpeed {delta : Float32} :
      Performs w (.changeSpeed delta) [] (w.withPlayer (·.changeSpeed delta))
  | setsSpeed {speed : Float32} :
      Performs w (.setSpeed speed) [] (w.withPlayer (·.setSpeed speed))

theorem perform_performs {w u : World} {c : Command} {events : List Event} (told : w.Told)
    (rests : w.complete = true → w.player.isMoving = false)
    (result : w.perform c = .ok (events, u)) : Performs w c events u := by
  -- An operation that is refused or has nothing to do goes through as well, and tells nothing.
  cases c with
  | step =>
    cases phase : w.phase with
    | editing =>
      simp only [perform, step, phase] at result
      cases result
      exact .idles phase
    | running => exact .ticks phase (step_ticks phase rests result)
  | changePhase target =>
    simp only [perform] at result
    by_cases same : w.phase = target
    · subst same
      rw [changePhase_self] at result
      cases result
      exact .stays
    · rw [changePhase_of_ne told same] at result
      cases result
      exact .restarts same
  | edit tile e =>
    simp only [perform] at result
    split at result
    · next event v accepted =>
      obtain ⟨t, kind, editing, lookup, verdict, rfl, rfl⟩ := edit_eq_ok accepted
      cases result
      exact .edits editing lookup verdict
    · next cause refused =>
      cases result
      exact .refuses refused
  | changeSpeed delta =>
    cases result
    exact .changesSpeed
  | setSpeed speed =>
    cases result
    exact .setsSpeed

theorem run_cons_eq_ok {w u : World} {c : Command} {rest : List Command} {told : List (List Event)}
    (ran : w.run (c :: rest) = .ok (told, u)) :
    ∃ events v more, w.perform c = .ok (events, v) ∧ v.run rest = .ok (more, u) ∧
      told = events :: more := by
  cases first : w.perform c with
  | error fault => simp [run, first, bind, Except.bind] at ran
  | ok outcome =>
    obtain ⟨events, v⟩ := outcome
    cases later : v.run rest with
    | error fault => simp [run, first, later, bind, Except.bind] at ran
    | ok outcome =>
      obtain ⟨more, last⟩ := outcome
      simp only [run, first, later, bind, Except.bind, pure, Except.pure, Except.ok.injEq,
        Prod.mk.injEq] at ran
      obtain ⟨rfl, rfl⟩ := ran
      exact ⟨events, v, more, rfl, later, rfl⟩

theorem run_preserves (Holds : List Event → World → Prop)
    (kept : ∀ {past : List Event} {w u : World} {c : Command} {events : List Event},
      Holds past w → w.perform c = .ok (events, u) → Holds (past ++ events) u)
    {past : List Event} {w u : World} {commands : List Command} {told : List (List Event)}
    (start : Holds past w) (ran : w.run commands = .ok (told, u)) :
    Holds (past ++ told.flatten) u := by
  -- Every operation adds to the past, so the past is part of what is proved by induction.
  induction commands generalizing past w told with
  | nil =>
    cases ran
    simpa using start
  | cons c rest ih =>
    obtain ⟨events, v, more, first, later, rfl⟩ := run_cons_eq_ok ran
    have next := ih (kept start first) later
    simpa using next

def play (board : Board) (spawn : Pose) (config : SimConfig) (words : WordSource)
    (commands : List Command) : Except Fault (List (List Event) × World) := do
  let w ← opened board spawn config words
  w.run commands

section
variable {board : Board} {spawn : Pose} {config : SimConfig} {words : WordSource}
  {commands : List Command} {told : List (List Event)} {w : World}

theorem play_eq_ok (played : play board spawn config words commands = .ok (told, w)) :
    ∃ start, opened board spawn config words = .ok start ∧ start.run commands = .ok (told, w) := by
  cases made : opened board spawn config words with
  | error fault => simp [play, made, bind, Except.bind] at played
  | ok start => exact ⟨start, rfl, by simpa [play, made, bind, Except.bind] using played⟩

theorem opened_eq_ok (made : opened board spawn config words = .ok w) :
    ∃ p, Player.spawned spawn config.initialSpeed config.maxSpeed = .ok p ∧
      w = ⟨config, board, .editing, .fresh, p, .none, .none, words, false, 0, 0⟩ := by
  cases player : Player.spawned spawn config.initialSpeed config.maxSpeed with
  | error fault => simp [opened, player, bind, Except.bind] at made
  | ok p =>
    simp only [opened, player, bind, Except.bind, pure, Except.pure, Except.ok.injEq] at made
    exact ⟨p, rfl, made.symm⟩

theorem Reachable.run {u : World} (reachable : Reachable w)
    (ran : w.run commands = .ok (told, u)) : Reachable u :=
  @run_preserves (fun _ => Reachable) (fun before => before.perform) [] _ _ _ _ reachable ran

theorem reachable_of_play (played : play board spawn config words commands = .ok (told, w)) :
    Reachable w := by
  obtain ⟨start, made, ran⟩ := play_eq_ok played
  exact (Reachable.opened made).run ran

end

/-! ## A run on a small board -/

/-- A gate, an arrow, a gem and a teleport in a row, and the destination away from them. -/
def row : Board :=
  let kinds : List TileKind :=
    [.gate .ruby .less 0, .arrow .right, .gem .ruby .add 1, .teleport 0 .source]
  let place (kind : TileKind) (z : Nat) := Tile.place kind ⟨0, 0, Binary32.ofInt z⟩
  (kinds.zipIdx.foldl (fun b (kind, z) => b.addTile (place kind z)) (Board.empty "row")).addTile
    (.place (.teleport 0 .destination) ⟨5, 0, 0⟩)

/-- Start on a tile of the row and do operations while running. -/
def onRow (z : Float32) (commands : List Command) : Except Fault (List (List Event) × World) :=
  play row ⟨⟨0, 0.5, z⟩, .identity⟩ .standard (.stepping 0 1) (.changePhase .running :: commands)

theorem exists_of_any {ε α : Type} {r : Except ε α} {check : α → Bool}
    (passes : r.toOption.any check = true) : ∃ a, r = .ok a ∧ check a = true := by
  cases r with
  | error _ => cases passes
  | ok a => exact ⟨a, rfl, passes⟩

end World
end Tilewalk
