import Mathlib.Logic.Relation
import Tilewalk.Proofs.Config.Legal
import Tilewalk.Proofs.Grid.Bounds
import Tilewalk.Proofs.Session.Gems
import Tilewalk.Proofs.Stage.Spawn
import Tilewalk.Proofs.World.Editing
import Tilewalk.Proofs.World.Faultless

/-! The sessions of one game. Whatever keys and ticks do to a session is made of five kinds of changes, so
what each of these keeps holds of every session of the game; above all, a session always shows the
stage at its place of the list. -/

set_option autoImplicit false

namespace Tilewalk

namespace Game

variable {g : Game} {index : Nat} {stage : Stage} {e : StageError}

def Loads (g : Game) (index : Nat) (stage : Stage) : Prop :=
  ∃ source, g.stages[index]? = some source ∧ source.load = .ok stage

def Fails (g : Game) (index : Nat) (e : StageError) : Prop :=
  ∃ source, g.stages[index]? = some source ∧ source.load = .error e

def loadsAt (g : Game) (index : Nat) : Bool :=
  (g.stages[index]?.bind (·.load.toOption)).isSome

theorem loadsAt_iff : g.loadsAt index = true ↔ ∃ stage, g.Loads index stage := by
  rw [loadsAt, Option.isSome_iff_exists]
  refine exists_congr fun stage => ?_
  rw [Option.bind_eq_some_iff]
  refine exists_congr fun source => and_congr_right fun _ => ?_
  cases source.load <;> simp [Except.toOption]

theorem Loads.lt_length (loads : g.Loads index stage) : index < g.stages.length := by
  obtain ⟨source, listed, -⟩ := loads
  exact (List.getElem?_eq_some_iff.mp listed).1

theorem Loads.unique {other : Stage} (loads : g.Loads index stage) (loads' : g.Loads index other) :
    stage = other := by
  obtain ⟨source, listed, loads⟩ := loads
  obtain ⟨source', listed', loads'⟩ := loads'
  cases listed.symm.trans listed'
  exact Except.ok.inj (loads.symm.trans loads')

theorem Fails.not_loads (fails : g.Fails index e) (stage : Stage) : ¬ g.Loads index stage := by
  rintro ⟨source, listed, loads⟩
  obtain ⟨source', listed', fails⟩ := fails
  cases listed.symm.trans listed'
  cases loads.symm.trans fails

theorem loads_or_fails (inside : index < g.stages.length) :
    (∃ stage, g.Loads index stage) ∨ ∃ e, g.Fails index e := by
  have listed : g.stages[index]? = some g.stages[index] := List.getElem?_eq_getElem inside
  cases outcome : g.stages[index].load with
  | ok stage => exact .inl ⟨stage, _, listed, outcome⟩
  | error e => exact .inr ⟨e, _, listed, outcome⟩

/-- What a session tells apart from its events. -/
inductive Tells (g : Game) : String → Prop where
  | broken {index : Nat} {e : StageError} : g.Fails index e → Tells g (Session.loadMessage g index e)
  | refused {w : World} {tile : TileId} {edit : Edit} {cause : EditError} :
      w.edit tile edit = .error cause → Tells g cause.message
  | bare : Tells g "No tile here"

end Game

namespace Session

variable {g : Game} {s u : Session}

/-! ## Opening a stage -/

def fresh (g : Game) (index : Nat) (stage : Stage) (p : Player) : Session where
  world := ⟨g.sim, stage.board, .editing, .fresh, p, .none, .none, g.words, false, 0, 0⟩
  view := (View.opened (.containing stage.spawn.position) index g.stages.length).setMessage
    (greeting stage)

theorem start_eq_ok {index : Nat} {stage : Stage} (made : start g index stage = .ok s) :
    ∃ p, Player.spawned stage.spawn g.sim.initialSpeed g.sim.maxSpeed = .ok p ∧
      s = fresh g index stage p := by
  cases opened : World.opened stage.board stage.spawn g.sim g.words with
  | error fault => simp [start, opened, bind, Except.bind] at made
  | ok w =>
    obtain ⟨p, spawned, rfl⟩ := World.opened_eq_ok opened
    simp only [start, opened, bind, Except.bind, pure, Except.pure, Except.ok.injEq] at made
    exact ⟨p, spawned, made.symm⟩

theorem openAt_of_loads {index : Nat} {stage : Stage} (loads : g.Loads index stage) :
    openAt g index = (start g index stage).mapError .fault := by
  obtain ⟨source, listed, loads⟩ := loads
  simp only [openAt, listed, loads]

theorem openAt_of_fails {index : Nat} {e : StageError} (fails : g.Fails index e) :
    openAt g index = .error (.stage e) := by
  obtain ⟨source, listed, fails⟩ := fails
  simp only [openAt, listed, fails]

theorem start_of_openAt {index : Nat} {stage : Stage} (loads : g.Loads index stage)
    (opened : openAt g index = .ok s) : start g index stage = .ok s := by
  rw [openAt_of_loads loads] at opened
  cases made : start g index stage with
  | error fault => simp [made, Except.mapError] at opened
  | ok first =>
    simp only [made, Except.mapError, Except.ok.injEq] at opened
    rw [opened]

theorem openAt_eq_ok {index : Nat} (opened : openAt g index = .ok s) :
    ∃ stage p, g.Loads index stage ∧
      Player.spawned stage.spawn g.sim.initialSpeed g.sim.maxSpeed = .ok p ∧
      s = fresh g index stage p := by
  cases listed : g.stages[index]? with
  | none => simp [openAt, listed] at opened
  | some source =>
    cases outcome : source.load with
    | error e => simp [openAt, listed, outcome] at opened
    | ok stage =>
      have loads : g.Loads index stage := ⟨source, listed, outcome⟩
      obtain ⟨p, spawned, same⟩ := start_eq_ok (start_of_openAt loads opened)
      exact ⟨stage, p, loads, spawned, same⟩

theorem stageIndex_of_openAt {index : Nat} (opened : openAt g index = .ok s) :
    s.view.stageIndex = index := by
  obtain ⟨_, _, -, -, rfl⟩ := openAt_eq_ok opened
  rfl

theorem fails_of_openAt {index : Nat} {e : StageError} (refused : openAt g index = .error (.stage e)) :
    g.Fails index e := by
  by_cases inside : index < g.stages.length
  · rcases Game.loads_or_fails inside with ⟨stage, loads⟩ | ⟨e', fails⟩
    · rw [openAt_of_loads loads] at refused
      cases made : start g index stage with
      | error fault => simp [made, Except.mapError] at refused
      | ok s => simp [made, Except.mapError] at refused
    · rw [openAt_of_fails fails] at refused
      cases refused
      exact fails
  · have beyond : g.stages[index]? = none := List.getElem?_eq_none_iff.mpr (Nat.le_of_not_lt inside)
    simp [openAt, beyond] at refused

theorem exists_openAt {index : Nat} {stage : Stage} (loads : g.Loads index stage)
    (number : g.sim.maxSpeed.isNaN = false) : ∃ s, openAt g index = .ok s := by
  obtain ⟨w, opened⟩ := World.exists_opened stage.board stage.spawn g.words number
  rw [openAt_of_loads loads]
  simp [start, opened, bind, Except.bind, pure, Except.pure, Except.mapError]

theorem exists_openAt_of_loadsAt {index : Nat} (loads : g.loadsAt index = true)
    (number : g.sim.maxSpeed.isNaN = false) :
    ∃ s, openAt g index = .ok s ∧ s.view.stageIndex = index := by
  obtain ⟨stage, loads⟩ := Game.loadsAt_iff.mp loads
  obtain ⟨s, opened⟩ := exists_openAt loads number
  exact ⟨s, opened, stageIndex_of_openAt opened⟩

theorem number_of_openAt {index : Nat} (opened : openAt g index = .ok s) :
    g.sim.maxSpeed.isNaN = false := by
  obtain ⟨stage, p, -, spawned, -⟩ := openAt_eq_ok opened
  rw [← SimConfig.isNaN_maxSpeed]
  simp only [Player.spawned] at spawned
  split at spawned
  · cases spawned
  · next number => exact Bool.eq_false_iff.mpr number

/-! ## Changes of a session -/

/-- One change of a session; keys and ticks are made of these. -/
inductive Changes (g : Game) (s : Session) : Session → Prop where
  | opens {index : Nat} {u : Session} : openAt g index = .ok u → Changes g s u
  | performs {c : Command} {events : List Event} {w : World} :
      s.world.perform c = .ok (events, w) → Changes g s (follow { s with world := w } events)
  | points {dx dz : Int32} : Changes g s (s.moveCursor dx dz)
  | tells {text : String} : g.Tells text → Changes g s { s with view := s.view.setMessage text }
  | ages : Changes g s { s with view := s.view.tick }

/-- The sessions of a game: opened somewhere on its list, and led on by keys and ticks. -/
inductive Plays (g : Game) : Session → Prop where
  | opened {index : Nat} {s : Session} : openAt g index = .ok s → Plays g s
  | keys {pressed : Key → Bool} {s u : Session} :
      Plays g s → s.handleKeys g pressed = .ok u → Plays g u
  | changesSpeed {delta : Float32} {s : Session} : Plays g s → Plays g (s.changeSpeed delta)
  | ticks {events : List Event} {s u : Session} :
      Plays g s → s.tick = .ok (events, u) → Plays g u

theorem switch_changes {step : Int32} (switched : s.switch g step = .ok u) :
    u = s ∨ Changes g s u := by
  simp only [switch] at switched
  split at switched
  · next next opened =>
    cases switched
    exact .inr (.opens opened)
  · cases switched
  · next e broken =>
    cases switched
    exact .inr (.tells (.broken (fails_of_openAt broken)))
  · cases switched
    exact .inl rfl

theorem editSelected_changes (s : Session) (e : Edit) : Changes g s (s.editSelected e) := by
  unfold editSelected
  split
  · exact .tells .bare
  · next tile _ =>
    split
    · next event w accepted => exact .performs (World.perform_edit accepted)
    · next cause refused => exact .tells (.refused refused)

open Relation

theorem steer_changes (s : Session) (pressed : Key → Bool) :
    ReflTransGen (Changes g) s (s.steer g pressed) := by
  refine steer_preserves (ReflTransGen (Changes g) s) ?_ ?_ ?_ .refl
  · exact fun {v} before => before.tail
      (.performs (c := .changePhase v.world.phase.toggled) rfl)
  · exact fun before => before.tail (.performs (c := .setSpeed g.sim.initialSpeed) rfl)
  · exact fun dx dz before => before.tail .points

theorem handleKeys_changes {pressed : Key → Bool} (handled : s.handleKeys g pressed = .ok u) :
    ReflTransGen (Changes g) s u := by
  have switched {step : Int32} (result : s.switch g step = .ok u) : ReflTransGen (Changes g) s u := by
    rcases switch_changes result with rfl | change
    · exact .refl
    · exact .single change
  unfold handleKeys at handled
  split at handled
  · exact switched handled
  · split at handled
    · exact switched handled
    · cases handled
      rw [handleStageKeys_eq]
      have steered := steer_changes (g := g) s pressed
      split
      · exact steered.tail (editSelected_changes _ _)
      · exact steered

theorem tick_changes {events : List Event} (ticked : s.tick = .ok (events, u)) :
    ReflTransGen (Changes g) s u := by
  cases stepped : s.world.step with
  | error fault => simp [tick, stepped, bind, Except.bind] at ticked
  | ok outcome =>
    obtain ⟨events, w⟩ := outcome
    simp only [tick, stepped, bind, Except.bind, pure, Except.pure, Except.ok.injEq,
      Prod.mk.injEq] at ticked
    obtain ⟨-, rfl⟩ := ticked
    have followed : Changes g s (follow { s with world := w } events) :=
      .performs (c := .step) stepped
    exact (ReflTransGen.single followed).tail .ages

theorem Plays.induct (Holds : Session → Prop)
    (first : ∀ {index : Nat} {s : Session}, openAt g index = .ok s → Holds s)
    (kept : ∀ {s u : Session}, Holds s → Changes g s u → Holds u) (plays : Plays g s) : Holds s := by
  have chain {s u : Session} (holds : Holds s) (changes : ReflTransGen (Changes g) s u) :
      Holds u := by
    induction changes with
    | refl => exact holds
    | tail _ change ih => exact kept ih change
  induction plays with
  | opened opened => exact first opened
  | keys _ handled ih => exact chain ih (handleKeys_changes handled)
  | @changesSpeed delta s _ ih => exact kept ih (.performs (c := .changeSpeed delta) rfl)
  | ticks _ ticked ih => exact chain ih (tick_changes ticked)

theorem Changes.worldReachable (change : Changes g s u) (reachable : s.world.Reachable) :
    u.world.Reachable := by
  cases change with
  | opens opened => exact (matched_openAt opened).world
  | performs performed => exact reachable.perform performed
  | points => exact reachable
  | tells => exact reachable
  | ages => exact reachable

/-- The same for what changes keep in reachable worlds, where an operation is known to do one of a few
things. -/
theorem Plays.preserves (Holds : Session → Prop)
    (first : ∀ {index : Nat} {s : Session}, openAt g index = .ok s → Holds s)
    (kept : ∀ {s u : Session}, s.world.Settled → Holds s → Changes g s u → Holds u)
    (plays : Plays g s) : Holds s := by
  -- Reachability is carried along only because what settled worlds do is known case by case.
  have both : s.world.Reachable ∧ Holds s := by
    refine plays.induct (fun s => s.world.Reachable ∧ Holds s) ?_ ?_
    · exact fun opened => ⟨(matched_openAt opened).world, first opened⟩
    · rintro s u ⟨reachable, holds⟩ change
      exact ⟨change.worldReachable reachable, kept reachable.settled holds change⟩
  exact both.2

end Session
end Tilewalk
