import Tilewalk.Proofs.Screen.Printing
import Tilewalk.Proofs.Session.Navigation

/-! Control characters in a session. The game's own messages have none, but a session shows the names and
descriptions of stages, and the causes for which they do not load, as it finds them. -/

set_option autoImplicit false

namespace Tilewalk

open Screen

namespace EditError

theorem clean_named (before : String) (tile : TileId) (after : String) (first : Clean before)
    (last : Clean after) : Clean (before ++ toString tile ++ after) :=
  (first.append (Clean.digits tile)).append last

theorem clean_message_of_onTile {e : Edit} {id : TileId} {t : Tile} {cause : EditError}
    (refused : e.onTile id t = .error cause) : Clean cause.message := by
  unfold Edit.onTile at refused
  split at refused
  · cases refused
    exact (clean_named "tile " id " is a " (by decide) (by decide)).append t.kind.clean_label
      |>.append (by decide)
  · split at refused
    · split at refused
      · next d _ =>
        split at refused
        · cases refused
          have name : Clean d.name := by cases d <;> decide
          exact (clean_named "tile " id " may not point " (by decide) (by decide)).append name
        · cases refused
      · cases refused
    · cases refused
      exact clean_named "tile " id " does not allow this change" (by decide) (by decide)

theorem clean_message {w : World} {tile : TileId} {e : Edit} {cause : EditError}
    (refused : w.edit tile e = .error cause) : Clean cause.message := by
  cases checked : w.editable tile with
  | error other =>
    rw [World.edit_of_not_editable checked] at refused
    cases refused
    rcases World.editable_eq_error checked with rfl | rfl
    · decide
    · exact (by decide : Clean "no tile with id ").append (Clean.digits tile)
  | ok t =>
    rw [World.edit_of_editable e checked] at refused
    cases verdict : e.onTile tile t with
    | error other =>
      rw [verdict] at refused
      cases refused
      exact clean_message_of_onTile verdict
    | ok kind =>
      rw [verdict] at refused
      cases refused

end EditError

namespace View

theorem clean_editMessage (kind : TileKind) : Clean (editMessage kind) :=
  (kind.clean_label.append (by decide)).append kind.clean_shortGlyph

theorem clean_follow {v : View} (clean : Clean v.message) (board : Board) (event : Event) :
    Clean (v.follow board event).message := by
  cases event with
  | phaseChanged phase =>
    cases phase with
    | editing => exact (by decide : Clean "Editing")
    | running => exact (by decide : Clean "Running")
  | gemHidden tile =>
    simp only [follow, hideGem]
    split <;> exact clean
  | teleportFailed tile group =>
    exact ((by decide : Clean "Teleport ").append (Clean.digits _)).append (by decide)
  | fallStarted => exact (by decide : Clean "Fell off the board. Space to edit")
  | levelComplete => exact (by decide : Clean "Goal! n: next stage")
  | tileEdited tile =>
    simp only [follow]
    split
    · exact clean_editMessage _
    · exact clean
  | _ => exact clean

theorem clean_apply {v : View} (clean : Clean v.message) (events : List Event) (board : Board) :
    Clean (v.apply events board).message := by
  induction events generalizing v with
  | nil => exact clean
  | cons event rest ih => exact ih (clean_follow clean board event)

theorem clean_tick {v : View} (clean : Clean v.message) : Clean v.tick.message := by
  simp only [tick]
  split
  · exact clean
  · exact (by decide : Clean "")
  · exact clean

end View

/-- Every text that the game was given and may show is free of control characters. -/
structure Game.Readable (g : Game) : Prop where
  names : ∀ i stage, g.Loads i stage → Clean stage.name
  greetings : ∀ i stage, g.Loads i stage → Clean (Session.greeting stage)
  faults : ∀ i e, g.Fails i e → Clean (Session.loadMessage g i e)

def Game.readsWell (g : Game) : Bool :=
  g.stages.zipIdx.all fun (source, i) =>
    match source.load with
    | .ok stage => decide (Clean stage.name ∧ Clean (Session.greeting stage))
    | .error e => decide (Clean (Session.loadMessage g i e))

theorem Game.readable_of_readsWell {g : Game} (well : g.readsWell = true) : g.Readable := by
  have each {i : Nat} {source : StageSource} (listed : g.stages[i]? = some source) :=
    List.all_eq_true.mp well (source, i) (List.mem_zipIdx_iff_getElem?.mpr listed)
  constructor
  case names =>
    rintro i stage ⟨source, listed, loads⟩
    have texts := each listed
    simp only [loads, decide_eq_true_eq] at texts
    exact texts.1
  case greetings =>
    rintro i stage ⟨source, listed, loads⟩
    have texts := each listed
    simp only [loads, decide_eq_true_eq] at texts
    exact texts.2
  case faults =>
    rintro i e ⟨source, listed, fails⟩
    have texts := each listed
    simpa only [fails, decide_eq_true_eq] using texts

namespace Session

variable {g : Game} {s u : Session}

theorem clean_changes (readable : g.Readable) (clean : Clean s.view.message)
    (change : Changes g s u) : Clean u.view.message := by
  -- Only opening a stage and failing to do so bring in texts that the game was given.
  cases change with
  | opens opened =>
    obtain ⟨stage, p, loads, -, rfl⟩ := openAt_eq_ok opened
    exact readable.greetings _ stage loads
  | performs => exact View.clean_apply clean _ _
  | points =>
    rw [moveCursor, View.moveCursor_eq]
    exact clean
  | tells told =>
    cases told with
    | broken fails => exact readable.faults _ _ fails
    | refused refused => exact EditError.clean_message refused
    | bare => exact (by decide : Clean "No tile here")
  | ages => exact View.clean_tick clean

theorem Plays.clean (plays : Plays g s) (readable : g.Readable) :
    Clean s.world.board.name ∧ Clean s.view.message := by
  obtain ⟨stage, edited, loads, authored⟩ := plays.onStage.stage
  have ⟨source, _, loaded⟩ := loads
  refine ⟨?_, ?_⟩
  · rw [authored.name, StageSource.name_of_load loaded]
    exact readable.names _ stage loads
  · refine plays.induct (fun s => Clean s.view.message) ?_ (clean_changes readable)
    intro index s opened
    obtain ⟨stage, p, loads, -, rfl⟩ := openAt_eq_ok opened
    exact readable.greetings _ stage loads

/-- The pictures of a session have control characters exactly when the name of the board or the message
has some. They have none when the texts of all stages have none, among them what others say of a stage
that does not load. All these texts are shown: those of a stage that loads when it is opened, and the
others when the keys lead to the stage. -/
theorem pictures_show_given_texts (g : Game) :
    (∀ s, Plays g s →
      ((∀ width height x y symbol,
          (compose s.world s.view width height).get? x y = some symbol → Printable symbol.char) ↔
        Clean s.world.board.name ∧ Clean s.view.message)) ∧
    (g.Readable → ∀ s, Plays g s → ∀ width height x y symbol,
      (compose s.world s.view width height).get? x y = some symbol → Printable symbol.char) ∧
    (g.sim.maxSpeed.isNaN = false → ∀ i stage, g.Loads i stage → ∃ s, Plays g s ∧
      s.world.board.name = stage.name ∧ s.view.message = greeting stage) ∧
    (∀ s pressed step e, Plays g s → wayOf pressed = some step → g.Fails (neighbour g s step) e →
      ∃ u, s.handleKeys g pressed = .ok u ∧ Plays g u ∧
        u.view.message = loadMessage g (neighbour g s step) e) := by
  refine ⟨fun s _ => printablePictures_iff, fun readable s plays => ?_,
    fun number i stage loads => ?_, fun s pressed step e plays way fails => ?_⟩
  · exact printablePictures_iff.mpr (plays.clean readable)
  · obtain ⟨s, opened⟩ := exists_openAt loads number
    refine ⟨s, .opened opened, ?_⟩
    obtain ⟨stage', p, loads', -, rfl⟩ := openAt_eq_ok opened
    cases loads.unique loads'
    have ⟨source, _, loaded⟩ := loads
    exact ⟨StageSource.name_of_load loaded, rfl⟩
  · have handled := (handleKeys_of_way way s).trans (switch_of_fails fails)
    exact ⟨_, handled, plays.keys handled, rfl⟩

/-- The messages of a broken stage are shown without control characters when its texts have none. -/
theorem broken_second_is_printable : ∃ s u, openAt brokenSecond 0 = .ok s ∧
    s.handleKeys brokenSecond (fun key => decide (key = .char 'n')) = .ok u ∧
    ∀ width height x y symbol,
      (compose u.world u.view width height).get? x y = some symbol → Printable symbol.char := by
  have readable : brokenSecond.Readable := Game.readable_of_readsWell (by decide +kernel)
  have loads : brokenSecond.loadsAt 0 = true := by decide +kernel
  obtain ⟨s, opened, place⟩ := exists_openAt_of_loadsAt loads (by decide)
  have next : neighbour brokenSecond s 1 = 1 := by rw [neighbour, place]; decide
  have way : wayOf (fun key => decide (key = .char 'n')) = some 1 := by decide
  have handled := (handleKeys_of_way way s).trans (switch_of_fails (next.symm ▸ brokenSecond_fails))
  have plays : Plays brokenSecond _ := (Plays.opened opened).keys handled
  exact ⟨s, _, opened, handled, (pictures_show_given_texts brokenSecond).2.1 readable _ plays⟩

def tabbed : Game := gameOf [("a.toml", "name = \"a\\tb\"\nmap = [[2]]\n")]

/-- The tab stands in the title row. -/
theorem tab_in_title : ∃ s, openAt tabbed 0 = .ok s ∧ ∃ symbol,
    (compose s.world s.view 20 3).get? 2 0 = some symbol ∧ ¬ Printable symbol.char := by
  have shown : (openAt tabbed 0).toOption.any (fun s =>
      ((compose s.world s.view 20 3).get? 2 0).any fun symbol => !decide (Printable symbol.char))
      = true := by
    decide +kernel
  obtain ⟨s, opened, shown⟩ := World.exists_of_any shown
  obtain ⟨symbol, found, control⟩ := (Option.any_eq_true ..).mp shown
  exact ⟨s, opened, symbol, found, by simpa using control⟩

end Session
end Tilewalk
