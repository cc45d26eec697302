import Tilewalk.Proofs.View
import Tilewalk.Proofs.World.Coherence
import Tilewalk.Session

/-! Hidden gems. The view knows only the events and the world knows nothing of the view, but the
gems that the view hides are those whose timers run: the events of every operation mirror what it
does to the timers, and a session hands all of them to its view. -/

set_option autoImplicit false

namespace Tilewalk

open View Event

namespace Timers

variable {t : Timers}

theorem OneEach.mirrors_takeDue (one : t.OneEach) (now : Float) :
    Mirrors t.Runs ((t.takeDue now).1.map gemRestored) (t.takeDue now).2.Runs := by
  have hidden : ∀ tile ∈ (t.takeDue now).1, t.Runs tile := fun tile member => by
    obtain ⟨timer, pending, -, same⟩ := mem_takeDue_iff.mp member
    exact ⟨timer, pending, same⟩
  exact (mirrors_restored (one.nodup_takeDue now) hidden).congr fun tile =>
    (one.runs_takeDue now tile).symm

theorem OneEach.mirrors_takeAll (one : t.OneEach) :
    Mirrors t.Runs (t.takeAll.1.map gemRestored) none.Runs := by
  have listed (tile : TileId) : tile ∈ t.takeAll.1 ↔ t.Runs tile := List.mem_map
  refine (mirrors_restored one fun tile => (listed tile).mp).congr fun tile => ?_
  simp [Runs, none]

end Timers

namespace World

variable {w u : World}

theorem Moves.mirrors {events : List Event} (moves : Moves w events u) :
    Mirrors w.timers.Runs events u.timers.Runs := by
  cases moves with
  | falls => exact mirrors_plain _ rfl
  | _ => exact mirrors_nil _

theorem Acts.mirrors {tile : TileId} {event : Event} (acts : Acts w tile event u) :
    Mirrors w.timers.Runs [event] u.timers.Runs := by
  cases acts with
  | computes =>
    exact (mirrors_gemHidden _ tile).congr fun other => (Timers.runs_start _ _ _ tile other).symm
  | _ => exact mirrors_plain _ rfl

theorem Enters.mirrors {tiles : List TileId} {acts : List (TileId × Event)}
    (enters : Enters w tiles acts u) : Mirrors w.timers.Runs (acts.map (·.2)) u.timers.Runs := by
  induction enters with
  | done => exact mirrors_nil _
  | passed _ _ ih => exact ih
  | acted _ act _ ih => exact act.mirrors.append ih

theorem perform_edit {tile : TileId} {e : Edit} {event : Event}
    (accepted : w.edit tile e = .ok (event, u)) :
    w.perform (.edit tile e) = .ok ([event], u) := by
  simp only [perform, accepted]

theorem mirrors_changes (gems : TileId → Prop) (changes : List Change) :
    Mirrors gems (changes.map ofChange) gems :=
  mirrors_plains gems (by simp [ofChange, isGem])

theorem Coherent.mirrors_handOver (coherent : w.Coherent) :
    Mirrors w.timers.Runs w.handOver.1 w.handOver.2.timers.Runs :=
  (coherent.oneEach.mirrors_takeDue w.time).append (mirrors_changes _ _)

theorem Coherent.mirrors_ticks (coherent : w.Coherent) {events : List Event}
    (ticks : Ticks w events u) : Mirrors w.timers.Runs events u.timers.Runs := by
  cases ticks with
  | mk moves enters =>
    -- A gem that is hidden in this tick is hidden before the due ones come back.
    have last := ((coherent.tickClock.moves moves).integrate.arrive.enters enters).mirrors_handOver
    exact (moves.mirrors.append enters.mirrors).append last

theorem Coherent.mirrors_restart (coherent : w.Coherent) (target : Phase) :
    Mirrors w.timers.Runs (w.restartEvents target) (w.restart target).timers.Runs := by
  have change : Mirrors w.timers.Runs [phaseChanged target] w.timers.Runs := mirrors_plain _ rfl
  exact (change.append coherent.oneEach.mirrors_takeAll).append (mirrors_changes _ _)

theorem Settled.mirrors (settled : w.Settled) {c : Command} {events : List Event}
    (result : w.perform c = .ok (events, u)) : Mirrors w.timers.Runs events u.timers.Runs := by
  cases settled.performs result with
  | ticks _ ticks => exact settled.mirrors_ticks ticks
  | restarts => exact settled.mirrors_restart _
  | edits => exact mirrors_plain _ rfl
  | _ => exact mirrors_nil _

end World

namespace Session

/-- The sessions that keys, changes of speed and ticks lead to from a newly opened one. -/
inductive Reachable : Session → Prop where
  | opened {g : Game} {index : Nat} {s : Session} : openAt g index = .ok s → Reachable s
  | keys {g : Game} {pressed : Key → Bool} {s u : Session} :
      Reachable s → s.handleKeys g pressed = .ok u → Reachable u
  | changesSpeed {delta : Float32} {s : Session} : Reachable s → Reachable (s.changeSpeed delta)
  | ticks {events : List Event} {s u : Session} :
      Reachable s → s.tick = .ok (events, u) → Reachable u

/-- The session after the keys that edit nothing. -/
def steer (g : Game) (pressed : Key → Bool) (s : Session) : Session :=
  let s := if pressed (.char ' ') then s.togglePhase else s
  let s := if pressed (.char 'r') then s.resetSpeed g else s
  cursorKeys.foldl (fun s (key, dx, dz) => if pressed key then s.moveCursor dx dz else s) s

theorem handleStageKeys_eq (g : Game) (pressed : Key → Bool) (s : Session) :
    s.handleStageKeys g pressed =
      match editKeys.find? fun (key, _) => pressed key with
      | some (_, e) => (s.steer g pressed).editSelected e
      | none => s.steer g pressed := rfl

theorem steer_preserves {g : Game} {pressed : Key → Bool} (Holds : Session → Prop)
    (toggled : ∀ {v : Session}, Holds v → Holds v.togglePhase)
    (reset : ∀ {v : Session}, Holds v → Holds (v.resetSpeed g))
    (moved : ∀ {v : Session} (dx dz : Int32), Holds v → Holds (v.moveCursor dx dz))
    {s : Session} (holds : Holds s) : Holds (s.steer g pressed) := by
  have either {b : Bool} {v v' : Session} (first : Holds v) (second : Holds v') :
      Holds (if b then v else v') := by
    cases b with
    | true => exact first
    | false => exact second
  have cursor (keys : List (Key × Int32 × Int32)) {v : Session} (before : Holds v) :
      Holds (keys.foldl
        (fun s (key, dx, dz) => if pressed key then s.moveCursor dx dz else s) v) := by
    induction keys generalizing v with
    | nil => exact before
    | cons first rest ih => exact ih (either (moved _ _ before) before)
  have first : Holds (if pressed (.char ' ') then s.togglePhase else s) :=
    either (toggled holds) holds
  exact cursor _ (either (reset first) first)

/-- In a call on the session its view follows these events; the board is the one after them. -/
inductive Follows (s : Session) : View → List Event → Board → Prop where
  | ticks {events : List Event} {u : World} :
      s.world.step = .ok (events, u) → Follows s s.view events u.board
  | toggles : Follows s s.view (s.world.changePhase s.world.phase.toggled).1
      (s.world.changePhase s.world.phase.toggled).2.board
  | edits {g : Game} {pressed : Key → Bool} {tile : TileId} {e : Edit} {event : Event} {u : World} :
      (s.steer g pressed).world.edit tile e = .ok (event, u) →
      Follows s (s.steer g pressed).view [event] u.board

/-- The gems that the view hides are those whose timers run. -/
structure Matched (s : Session) : Prop where
  world : s.world.Reachable
  hides : s.view.Hides s.world.timers.Runs

variable {s u : Session}

theorem Matched.look (matched : s.Matched) {v : View}
    (same : ∀ tile, v.gemVisible tile = s.view.gemVisible tile) :
    Matched { s with view := v } :=
  ⟨matched.world, matched.hides.of_same same⟩

theorem Matched.follow (matched : s.Matched) {c : Command} {events : List Event} {w : World}
    (result : s.world.perform c = .ok (events, w)) :
    Matched (Session.follow { s with world := w } events) := by
  have mirrors := matched.world.settled.mirrors result
  exact ⟨.perform matched.world result, (mirrors w.board s.view matched.hides).1⟩

theorem Matched.restoresHidden (matched : s.Matched) {c : Command} {events : List Event} {w : World}
    (result : s.world.perform c = .ok (events, w)) : RestoresHidden w.board s.view events :=
  (matched.world.settled.mirrors result w.board s.view matched.hides).2

theorem matched_start {g : Game} {index : Nat} {stage : Stage}
    (made : start g index stage = .ok s) : s.Matched := by
  cases opened : World.opened stage.board stage.spawn g.sim g.words with
  | error fault => simp [start, opened, bind, Except.bind] at made
  | ok w =>
    simp only [start, opened, bind, Except.bind, pure, Except.pure, Except.ok.injEq] at made
    subst made
    refine ⟨.opened opened, fun tile => ?_⟩
    obtain ⟨p, -, rfl⟩ := World.opened_eq_ok opened
    simp [gemVisible, View.opened, setMessage, Timers.Runs, Timers.none]

theorem matched_openAt {g : Game} {index : Nat} (made : openAt g index = .ok s) : s.Matched := by
  unfold openAt at made
  split at made
  · cases made
  · split at made
    · cases made
    · next stage _ =>
      cases started : start g index stage with
      | error fault => simp [started, Except.mapError] at made
      | ok first =>
        simp only [started, Except.mapError, Except.ok.injEq] at made
        exact made ▸ matched_start started

theorem Matched.switch (matched : s.Matched) {g : Game} {step : Int32}
    (switched : s.switch g step = .ok u) : u.Matched := by
  simp only [Session.switch] at switched
  split at switched
  · next next opened =>
    cases switched
    exact matched_openAt opened
  · cases switched
  · cases switched
    exact matched.look fun _ => rfl
  · cases switched
    exact matched

theorem Matched.changeSpeed (matched : s.Matched) (delta : Float32) :
    (s.changeSpeed delta).Matched :=
  ⟨matched.world.perform (c := .changeSpeed delta) rfl, matched.hides⟩

theorem Matched.resetSpeed (matched : s.Matched) (g : Game) : (s.resetSpeed g).Matched :=
  ⟨matched.world.perform (c := .setSpeed g.sim.initialSpeed) rfl, matched.hides⟩

theorem Matched.togglePhase (matched : s.Matched) : s.togglePhase.Matched :=
  matched.follow (c := .changePhase s.world.phase.toggled) rfl

theorem Matched.moveCursor (matched : s.Matched) (dx dz : Int32) : (s.moveCursor dx dz).Matched :=
  matched.look (gemVisible_moveCursor s.view dx dz s.world.board)

theorem Matched.steer (matched : s.Matched) (g : Game) (pressed : Key → Bool) :
    (s.steer g pressed).Matched :=
  steer_preserves Matched (·.togglePhase) (·.resetSpeed g)
    (fun dx dz before => before.moveCursor dx dz) matched

theorem Matched.editSelected (matched : s.Matched) (e : Edit) : (s.editSelected e).Matched := by
  unfold Session.editSelected
  split
  · exact matched.look fun _ => rfl
  · next tile _ =>
    split
    · next event w accepted => exact matched.follow (World.perform_edit accepted)
    · exact matched.look fun _ => rfl

theorem Matched.handleKeys (matched : s.Matched) {g : Game} {pressed : Key → Bool}
    (handled : s.handleKeys g pressed = .ok u) : u.Matched := by
  unfold Session.handleKeys at handled
  split at handled
  · exact matched.switch handled
  · split at handled
    · exact matched.switch handled
    · cases handled
      rw [handleStageKeys_eq]
      have steered := matched.steer g pressed
      split
      · exact steered.editSelected _
      · exact steered

theorem Matched.tick (matched : s.Matched) {events : List Event}
    (ticked : s.tick = .ok (events, u)) : u.Matched := by
  cases stepped : s.world.step with
  | error fault => simp [Session.tick, stepped, bind, Except.bind] at ticked
  | ok outcome =>
    obtain ⟨events, w⟩ := outcome
    simp only [Session.tick, stepped, bind, Except.bind, pure, Except.pure, Except.ok.injEq,
      Prod.mk.injEq] at ticked
    obtain ⟨-, rfl⟩ := ticked
    have followed := matched.follow (c := .step) stepped
    exact followed.look (gemVisible_tick _)

theorem Reachable.matched (reachable : s.Reachable) : s.Matched := by
  induction reachable with
  | opened made => exact matched_openAt made
  | keys _ handled ih => exact ih.handleKeys handled
  | changesSpeed _ ih => exact ih.changeSpeed _
  | ticks _ ticked ih => exact ih.tick ticked

/-- In every session the view hides exactly the gems with a pending timer, no gem is hidden while
authoring, and every gem that the view is told to show again was hidden until then. -/
theorem hidden_gems_are_pending (reachable : s.Reachable) :
    (∀ tile, s.view.gemVisible tile = false ↔ ∃ timer ∈ s.world.timers.pending, timer.tile = tile) ∧
    (s.world.phase = .editing → ∀ tile, s.view.gemVisible tile = true) ∧
    ∀ view events board, s.Follows view events board → RestoresHidden board view events := by
  have matched := reachable.matched
  refine ⟨matched.hides, fun editing tile => ?_, fun view events board follows => ?_⟩
  · have none := (matched.world.settled.blank editing).1
    have visible : s.view.gemVisible tile ≠ false := fun hidden => by
      obtain ⟨timer, member, -⟩ := (matched.hides tile).mp hidden
      simp [none] at member
    simpa using visible
  · cases follows with
    | ticks stepped => exact matched.restoresHidden (c := .step) stepped
    | toggles => exact matched.restoresHidden (c := .changePhase s.world.phase.toggled) rfl
    | edits accepted =>
      exact (matched.steer _ _).restoresHidden (World.perform_edit accepted)

/-! ## A session in which a gem hides -/

def ticksFor : Nat → Session → Except Fault Session
  | 0, s => .ok s
  | n + 1, s => do
    let (_, s) ← s.tick
    ticksFor n s

theorem Reachable.ticksFor (reachable : s.Reachable) {n : Nat} (ran : ticksFor n s = .ok u) :
    u.Reachable := by
  induction n generalizing s with
  | zero =>
    cases ran
    exact reachable
  | succ n ih =>
    cases ticked : s.tick with
    | error fault => simp [Session.ticksFor, ticked, bind, Except.bind] at ran
    | ok outcome =>
      have later : Session.ticksFor n outcome.2 = .ok u := by
        simpa [Session.ticksFor, ticked, bind, Except.bind] using ran
      exact ih (.ticks reachable ticked) later

def gameOf (files : List (String × String)) : Game where
  sim := .standard
  stages := files.map fun (name, text) => .file "stages" name (.file text)
  generator _ := .stepping 0 1
  wording := ⟨fun _ => "not a stage", fun _ => "not a file"⟩

def gemGame : Game := gameOf [("gem.toml", "name = \"Gem\"\nmap = [[20], [2]]\n")]

theorem gem_of_stage_hides : ∃ s, Reachable s ∧ s.view.gemVisible 0 = false ∧
    (∃ timer ∈ s.world.timers.pending, timer.tile = 0) ∧
    RestoresHidden (s.world.changePhase s.world.phase.toggled).2.board s.view
      (s.world.changePhase s.world.phase.toggled).1 := by
  have plays : (openAt gemGame 0).toOption.any (fun s =>
      (s.handleKeys gemGame fun key => decide (key = .char ' ')).toOption.any fun s =>
        (ticksFor 17 s).toOption.any fun s => !s.view.gemVisible 0) = true := by
    decide +kernel
  obtain ⟨first, made, plays⟩ := World.exists_of_any plays
  obtain ⟨second, started, plays⟩ := World.exists_of_any plays
  obtain ⟨s, ran, hidden⟩ := World.exists_of_any plays
  have reachable : s.Reachable := ((Reachable.opened made).keys started).ticksFor ran
  obtain ⟨pending, -, restores⟩ := hidden_gems_are_pending reachable
  have dark : s.view.gemVisible 0 = false := by simpa using hidden
  exact ⟨s, reachable, dark, (pending 0).mp dark, restores _ _ _ .toggles⟩

end Session
end Tilewalk
