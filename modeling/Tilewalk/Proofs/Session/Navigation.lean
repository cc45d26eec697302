import Tilewalk.Proofs.Circle
import Tilewalk.Proofs.Session.Playing

/-! Navigation. A session always shows the stage at its place of the list, with the cursor on its board; a
switch opens the next place around the list anew or changes nothing but the message; and the game
begins at the first stage that loads. -/

set_option autoImplicit false

namespace Tilewalk

namespace View

structure SamePlace (v u : View) : Prop where
  cursor : u.cursor = v.cursor
  stageIndex : u.stageIndex = v.stageIndex
  stageCount : u.stageCount = v.stageCount

theorem samePlace_follow (v : View) (board : Board) (event : Event) :
    v.SamePlace (v.follow board event) := by
  have hidden (tile : TileId) : v.SamePlace (v.hideGem tile) := by
    unfold hideGem
    split <;> exact ⟨rfl, rfl, rfl⟩
  cases event with
  | phaseChanged phase => cases phase <;> exact ⟨rfl, rfl, rfl⟩
  | gemHidden tile => exact hidden tile
  | tileEdited tile =>
    unfold follow
    dsimp only
    split <;> exact ⟨rfl, rfl, rfl⟩
  | _ => exact ⟨rfl, rfl, rfl⟩

theorem samePlace_apply (v : View) (events : List Event) (board : Board) :
    v.SamePlace (v.apply events board) := by
  induction events generalizing v with
  | nil => exact ⟨rfl, rfl, rfl⟩
  | cons event rest ih =>
    have first := v.samePlace_follow board event
    have later := ih (v.follow board event)
    exact ⟨later.cursor.trans first.cursor, later.stageIndex.trans first.stageIndex,
      later.stageCount.trans first.stageCount⟩

theorem samePlace_tick (v : View) : v.SamePlace v.tick := by
  unfold tick
  dsimp only
  split <;> exact ⟨rfl, rfl, rfl⟩

end View

namespace Session

variable {g : Game} {s u : Session}

/-- The session shows the stage at its place of the list, and the cursor is on the board. -/
structure OnStage (g : Game) (s : Session) : Prop where
  count : s.view.stageCount = g.stages.length
  stage : ∃ stage edited, g.Loads s.view.stageIndex stage ∧ stage.board.Authored edited s.world.board
  cursor : s.world.board.cells.Encloses s.view.cursor

theorem OnStage.look (on : s.OnStage g) {v : View} (same : s.view.SamePlace v) :
    OnStage g { s with view := v } where
  count := same.stageCount.trans on.count
  stage := by
    obtain ⟨stage, edited, loads, authored⟩ := on.stage
    exact ⟨stage, edited, same.stageIndex.symm ▸ loads, authored⟩
  cursor := by
    rw [show (Session.mk s.world v).view.cursor = s.view.cursor from same.cursor]
    exact on.cursor

theorem onStage_openAt {index : Nat} (opened : openAt g index = .ok s) : s.OnStage g := by
  obtain ⟨stage, p, loads, -, rfl⟩ := openAt_eq_ok opened
  have ⟨source, _, loaded⟩ := loads
  exact
    { count := rfl
      stage := ⟨stage, _, loads, stage.board.authored_self⟩
      cursor := CellSet.encloses_of_mem (StageSource.spawn_of_load loaded) }

theorem OnStage.performs (on : s.OnStage g) {c : Command} {events : List Event} {w : World}
    (performs : World.Performs s.world c events w) : OnStage g { s with world := w } := by
  obtain ⟨stage, edited, loads, authored⟩ := on.stage
  obtain ⟨edited', authored'⟩ := performs.authored authored
  refine ⟨on.count, ⟨stage, edited', loads, authored'⟩, ?_⟩
  rw [show w.board.cells = s.world.board.cells from authored'.cells.trans authored.cells.symm]
  exact on.cursor

theorem OnStage.changes (on : s.OnStage g) (settled : s.world.Settled) (change : Changes g s u) :
    u.OnStage g := by
  -- Only an opening changes the place on the list, and it brings the board of that place along.
  cases change with
  | opens opened => exact onStage_openAt opened
  | @performs c events w performed =>
    exact (on.performs (settled.performs performed)).look (s.view.samePlace_apply events w.board)
  | @points dx dz =>
    have index : (s.view.moveCursor dx dz s.world.board).stageIndex = s.view.stageIndex := by
      rw [View.moveCursor_eq]
    have count : (s.view.moveCursor dx dz s.world.board).stageCount = s.view.stageCount := by
      rw [View.moveCursor_eq]
    obtain ⟨stage, edited, loads, authored⟩ := on.stage
    exact ⟨count.trans on.count, ⟨stage, edited, index.symm ▸ loads, authored⟩,
      View.encloses_moveCursor dx dz on.cursor⟩
  | tells => exact on.look ⟨rfl, rfl, rfl⟩
  | ages => exact on.look s.view.samePlace_tick

theorem Plays.onStage (plays : Plays g s) : s.OnStage g :=
  plays.preserves (OnStage g) onStage_openAt fun settled on change => on.changes settled change

theorem Plays.inside (plays : Plays g s) : s.view.stageIndex < g.stages.length := by
  obtain ⟨stage, edited, loads, -⟩ := plays.onStage.stage
  exact loads.lt_length

theorem Plays.positive (plays : Plays g s) : 0 < g.stages.length :=
  Nat.lt_of_le_of_lt (Nat.zero_le _) plays.inside

theorem Plays.number (plays : Plays g s) : g.sim.maxSpeed.isNaN = false :=
  plays.induct (fun _ => g.sim.maxSpeed.isNaN = false) number_of_openAt fun number _ => number

/-! ## Switching -/

/-- The way around the list in which the pressed keys lead, if they do; `n` comes before `p`. -/
def wayOf (pressed : Key → Bool) : Option Int32 :=
  if pressed (.char 'n') then some 1 else if pressed (.char 'p') then some (-1) else none

theorem handleKeys_of_way {pressed : Key → Bool} {step : Int32} (way : wayOf pressed = some step)
    (s : Session) : s.handleKeys g pressed = s.switch g step := by
  unfold wayOf at way
  unfold handleKeys
  split at way
  · next forward =>
    cases way
    rw [if_pos forward]
  · next forward =>
    split at way
    · next back =>
      cases way
      rw [if_neg forward, if_pos back]
    · cases way

theorem wayOf_cases {pressed : Key → Bool} {step : Int32} (way : wayOf pressed = some step) :
    step.toInt = 1 ∨ step.toInt = -1 := by
  unfold wayOf at way
  split at way
  · cases way
    exact .inl rfl
  · split at way
    · cases way
      exact .inr rfl
    · cases way

/-- In a list of less than 2 ^ 31 stages words of 32 bits lead around the list. -/
theorem neighbour_eq (inside : s.view.stageIndex < g.stages.length)
    (short : g.stages.length < 2 ^ 31) {step : Int32} (one : step.toInt = 1 ∨ step.toInt = -1) :
    neighbour g s step = wrapIndex s.view.stageIndex step.toInt g.stages.length := by
  -- The place and the sum fit into a word, and so does the length.
  have sum : (Int32.ofNat s.view.stageIndex + step).toInt = s.view.stageIndex + step.toInt := by
    rw [Int32.toInt_add, Int32.toInt_ofNat_of_lt (by omega)]
    exact Int.bmod_eq_of_le (by omega) (by omega)
  rw [neighbour, sum, Int32.toInt_ofNat_of_lt short, wrapIndex]

theorem speed_of_spawned {c : SimConfig} {spawn : Pose} {p : Player}
    (number : c.ranged.maxSpeed.isNaN = false)
    (spawned : Player.spawned spawn c.ranged.initialSpeed c.ranged.maxSpeed = .ok p) :
    p.speed = c.ranged.initialSpeed := by
  rw [Player.eq_of_spawned spawned]
  exact SimConfig.clamp_ranged_initialSpeed ((SimConfig.isNaN_maxSpeed c).symm.trans number)

theorem switch_of_openAt {step : Int32} (opened : openAt g (neighbour g s step) = .ok u) :
    s.switch g step = .ok u := by
  simp only [switch, opened]

theorem switch_of_fails {step : Int32} {e : StageError} (fails : g.Fails (neighbour g s step) e) :
    s.switch g step
      = .ok { s with view := s.view.setMessage (loadMessage g (neighbour g s step) e) } := by
  simp only [switch, openAt_of_fails fails]

/-! ## The first stage that loads -/

theorem openFirstFrom_cases (rest : List StageSource) {index : Nat}
    (here : g.stages.drop index = rest) :
    (∀ i, index ≤ i → ∀ stage, ¬ g.Loads i stage) ∧ openFirstFrom g index rest = .ok none ∨
      ∃ i stage, index ≤ i ∧ g.Loads i stage ∧
        (∀ j, index ≤ j → j < i → ∀ other, ¬ g.Loads j other) ∧
        openFirstFrom g index rest = (start g i stage).map some := by
  -- The induction is on what is left of the list; `here` ties it to its place in the whole list.
  induction rest generalizing index with
  | nil =>
    refine .inl ⟨fun i beyond stage loads => ?_, rfl⟩
    have inside := loads.lt_length
    have length := List.drop_eq_nil_iff.mp here
    omega
  | cons source rest ih =>
    have inside : index < g.stages.length := by
      by_contra beyond
      rw [List.drop_eq_nil_iff.mpr (Nat.le_of_not_lt beyond)] at here
      cases here
    have next : g.stages.drop (index + 1) = rest := by
      rw [← List.drop_drop, here]
      rfl
    rcases Game.loads_or_fails inside with ⟨stage, loads⟩ | ⟨e, fails⟩
    · refine .inr ⟨index, stage, Nat.le_refl index, loads, fun j least less => by omega, ?_⟩
      rw [openFirstFrom, openAt_of_loads loads]
      cases start g index stage <;> rfl
    · have skip : openFirstFrom g index (source :: rest) = openFirstFrom g (index + 1) rest := by
        rw [openFirstFrom, openAt_of_fails fails]
      rw [skip]
      rcases ih next with ⟨none, result⟩ | ⟨i, stage, least, loads, before, result⟩
      · refine .inl ⟨fun i least => ?_, result⟩
        rcases Nat.eq_or_lt_of_le least with rfl | later
        · exact fails.not_loads
        · exact none i later
      · refine .inr ⟨i, stage, Nat.le_of_lt least, loads, fun j least less => ?_, result⟩
        rcases Nat.eq_or_lt_of_le least with rfl | later
        · exact fails.not_loads
        · exact before j later less

theorem openFirst_cases (g : Game) :
    (∀ i stage, ¬ g.Loads i stage) ∧ openFirst g = .ok none ∨
      ∃ i stage, g.Loads i stage ∧ (∀ j < i, ∀ other, ¬ g.Loads j other) ∧
        openFirst g = (start g i stage).map some := by
  rcases openFirstFrom_cases g.stages List.drop_zero with ⟨none, result⟩ | found
  · exact .inl ⟨fun i => none i (Nat.zero_le i), result⟩
  · obtain ⟨i, stage, -, loads, before, result⟩ := found
    exact .inr ⟨i, stage, loads, fun j => before j (Nat.zero_le j), result⟩

/-- Every session of a game shows the stage at its place of the list, with the cursor on the board.
The keys that lead around the list open the next stage anew, or tell why it does not load and leave
everything else as it is. The game begins with the first stage that loads. -/
theorem navigation_is_consistent (g : Game) :
    (∀ s, Plays g s →
      s.view.stageCount = g.stages.length ∧ s.view.stageIndex < g.stages.length ∧
      (∃ stage, g.Loads s.view.stageIndex stage ∧ s.world.board.name = stage.name ∧
        s.world.board.cells = stage.board.cells ∧
        s.world.board.teleports = stage.board.teleports ∧
        s.world.board.tiles.length = stage.board.tiles.length ∧
        s.world.board.tiles.map (·.position) = stage.board.tiles.map (·.position)) ∧
      ∃ lo hi, s.world.board.cells.bounds = some (lo, hi) ∧ lo ≤ s.view.cursor ∧
        s.view.cursor ≤ hi) ∧
    (∀ s pressed step, Plays g s → wayOf pressed = some step →
      (step.toInt = 1 ∨ step.toInt = -1) ∧
      (g.stages.length < 2 ^ 31 →
        (neighbour g s step : Int) = (s.view.stageIndex + step.toInt) % g.stages.length) ∧
      (∀ stage, g.Loads (neighbour g s step) stage → ∃ u, s.handleKeys g pressed = .ok u ∧
        openAt g (neighbour g s step) = .ok u ∧ u.view.stageIndex = neighbour g s step ∧
        u.world.phase = .editing ∧ u.world.board = stage.board ∧
        (∀ c, g.sim = SimConfig.ranged c → u.world.player.speed = g.sim.initialSpeed) ∧
        ∀ tile, u.view.gemVisible tile = true) ∧
      (∀ e, g.Fails (neighbour g s step) e → s.handleKeys g pressed = .ok { s with
        view := { s.view with
          message := loadMessage g (neighbour g s step) e
          messageFrames := View.messageTime } })) ∧
    ((∀ i stage, ¬ g.Loads i stage) ∧ openFirst g = .ok none ∨
      ∃ i stage, g.Loads i stage ∧ (∀ j < i, ∀ other, ¬ g.Loads j other) ∧
        openFirst g = (start g i stage).map some ∧
        (g.sim.maxSpeed.isNaN = false →
          ∃ s, openAt g i = .ok s ∧ openFirst g = .ok (some s))) := by
  refine ⟨fun s plays => ?_, fun s pressed step plays way => ?_, ?_⟩
  · have on := plays.onStage
    obtain ⟨stage, edited, loads, authored⟩ := on.stage
    have ⟨source, _, loaded⟩ := loads
    have name := authored.name.trans (StageSource.name_of_load loaded)
    exact ⟨on.count, loads.lt_length, ⟨stage, loads, name, authored.cells, authored.teleports,
      authored.size, authored.positions⟩, on.cursor⟩
  · -- The settings of a game need not be in range, so the speed is stated for those that are.
    rw [handleKeys_of_way way]
    have one := wayOf_cases way
    refine ⟨one, fun short => ?_, fun stage loads => ?_, fun e fails => switch_of_fails fails⟩
    · rw [neighbour_eq plays.inside short one, natCast_wrapIndex _ _ plays.positive]
    · obtain ⟨u, opened⟩ := exists_openAt loads plays.number
      refine ⟨u, switch_of_openAt opened, opened, ?_⟩
      obtain ⟨stage', p, loads', spawned, rfl⟩ := openAt_eq_ok opened
      cases loads.unique loads'
      refine ⟨rfl, rfl, rfl, fun c ranged => ?_, fun tile => ?_⟩
      · have number := plays.number
        rw [ranged] at number spawned ⊢
        exact speed_of_spawned number spawned
      · simp [fresh, View.gemVisible, View.opened, View.setMessage]
  · rcases openFirst_cases g with none | ⟨i, stage, loads, before, result⟩
    · exact .inl none
    · refine .inr ⟨i, stage, loads, before, result, fun number => ?_⟩
      obtain ⟨s, opened⟩ := exists_openAt loads number
      exact ⟨s, opened, by rw [result, start_of_openAt loads opened]; rfl⟩

def brokenSecond : Game :=
  gameOf [("a.toml", "name = \"A\"\nmap = [[2]]\n"), ("b.toml", "name = \"B\"\nmap = [[1]]\n"),
    ("c.toml", "name = \"C\"\nmap = [[2]]\n")]

theorem brokenSecond_fails : brokenSecond.Fails 1 (.missingStart "B") := by
  have told : (brokenSecond.stages[1]?.map fun source => source.load.map fun _ => ())
      = some (.error (.missingStart "B")) := by
    decide +kernel
  obtain ⟨source, listed, told⟩ := Option.map_eq_some_iff.mp told
  refine ⟨source, listed, ?_⟩
  cases outcome : source.load with
  | error e =>
    rw [outcome] at told
    exact congrArg _ (Except.error.inj told)
  | ok stage =>
    rw [outcome] at told
    cases told

theorem broken_second_is_told :
    ∃ s u, openFirst brokenSecond = .ok (some s) ∧
      s.handleKeys brokenSecond (fun key => decide (key = .char 'n')) = .ok { s with
        view := { s.view with
          message := "b.toml: stage 'B' has no start tile"
          messageFrames := View.messageTime } } ∧
      s.handleKeys brokenSecond (fun key => decide (key = .char 'p')) = .ok u ∧
      u.view.stageIndex = 2 ∧ u.world.phase = .editing := by
  obtain ⟨-, switches, begins⟩ := navigation_is_consistent brokenSecond
  have firstAt : brokenSecond.loadsAt 0 = true := by decide +kernel
  have lastAt : brokenSecond.loadsAt 2 = true := by decide +kernel
  obtain ⟨first, firstLoads⟩ := Game.loadsAt_iff.mp firstAt
  obtain ⟨last, lastLoads⟩ := Game.loadsAt_iff.mp lastAt
  obtain ⟨none, -⟩ | ⟨i, stage, -, before, -, opens⟩ := begins
  · exact absurd firstLoads (none 0 first)
  · -- The first stage loads, so the game begins with it.
    obtain rfl : i = 0 := by
      by_contra later
      exact before 0 (Nat.pos_of_ne_zero later) first firstLoads
    obtain ⟨s, opened, begun⟩ := opens (by decide)
    have plays : Plays brokenSecond s := .opened opened
    have place : s.view.stageIndex = 0 := stageIndex_of_openAt opened
    have forth : neighbour brokenSecond s 1 = 1 := by rw [neighbour, place]; decide
    have back : neighbour brokenSecond s (-1) = 2 := by rw [neighbour, place]; decide
    obtain ⟨-, -, -, told⟩ := switches s _ 1 plays (by decide :
      wayOf (fun key => decide (key = .char 'n')) = some 1)
    obtain ⟨-, -, anew, -⟩ := switches s _ (-1) plays (by decide :
      wayOf (fun key => decide (key = .char 'p')) = some (-1))
    rw [forth] at told
    rw [back] at anew
    obtain ⟨u, switched, -, index, editing, -⟩ := anew last lastLoads
    exact ⟨s, u, begun, told _ brokenSecond_fails, switched, index, editing⟩

end Session
end Tilewalk
