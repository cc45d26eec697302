import Tilewalk.Proofs.Authoring
import Tilewalk.Proofs.Circle
import Tilewalk.Proofs.World.Footprint
import Tilewalk.Proofs.World.Operation

/-! Cycling in a run. What a run makes of a tile is what the accepted edits of the tile make of it, one after
another; cyclings of one part add up, so all of them together are one cycling by the sum of their steps. -/

set_option autoImplicit false

namespace Tilewalk

namespace TileKind

def withRegister (f : Register → Register) : TileKind → TileKind
  | gem r o n => gem (f r) o n
  | gate r c n => gate (f r) c n
  | kind => kind

def withOperation (f : Operation → Operation) (g : Comparator → Comparator) : TileKind → TileKind
  | gem r o n => gem r (f o) n
  | gate r c n => gate r (g c) n
  | kind => kind

end TileKind

namespace Edit

/-- Edits by a step turn a kind, and their steps add up. -/
structure Turning (edit : Int → Edit) (turn : Int → TileKind → TileKind) : Prop where
  result : ∀ {forbidden : Option Direction} {kind kind' : TileKind} {step : Int},
    (edit step).result? forbidden kind = some kind' → kind' = turn step kind
  zero : ∀ kind, turn 0 kind = kind
  add : ∀ a b kind, turn b (turn a kind) = turn (a + b) kind

theorem turning_cycleRegister :
    Turning cycleRegister fun step => TileKind.withRegister (·.cycled step) where
  result {forbidden kind kind' step} result := by
    cases kind with
    | gem => exact (Option.some.inj result).symm
    | gate => exact (Option.some.inj result).symm
    | _ => cases result
  zero kind := by cases kind <;> simp [TileKind.withRegister, Register.goesAround.cycled_zero]
  add a b kind := by cases kind <;> simp [TileKind.withRegister, Register.goesAround.cycled_add]

theorem turning_cycleOperation :
    Turning cycleOperation fun step => TileKind.withOperation (·.cycled step) (·.cycled step) where
  result {forbidden kind kind' step} result := by
    cases kind with
    | gem => exact (Option.some.inj result).symm
    | gate => exact (Option.some.inj result).symm
    | _ => cases result
  zero kind := by
    cases kind <;> simp [TileKind.withOperation, Operation.goesAround.cycled_zero,
      Comparator.goesAround.cycled_zero]
  add a b kind := by
    cases kind <;> simp [TileKind.withOperation, Operation.goesAround.cycled_add,
      Comparator.goesAround.cycled_add]

/-- What edits make of a kind, when each of them is one for the kind that it meets. -/
def resultAll? (forbidden : Option Direction) (edits : List Edit) (kind : TileKind) :
    Option TileKind :=
  edits.foldlM (fun kind e => e.result? forbidden kind) kind

theorem Turning.resultAll? {edit : Int → Edit} {turn : Int → TileKind → TileKind}
    (turning : Turning edit turn) {forbidden : Option Direction} {steps : List Int}
    {kind kind' : TileKind} (result : Edit.resultAll? forbidden (steps.map edit) kind = some kind') :
    kind' = turn steps.sum kind := by
  -- The kind is general: each step turns it before the rest of them do.
  induction steps generalizing kind with
  | nil => exact (Option.some.inj result).symm.trans (turning.zero kind).symm
  | cons step rest ih =>
    obtain ⟨middle, first, later⟩ := Option.bind_eq_some_iff.mp result
    rw [ih later, turning.result first, turning.add, List.sum_cons]

end Edit

namespace World

variable {w u : World} {c : Command} {events : List Event} {id : TileId} {t : Tile}

theorem board_of_step (stepped : w.step = .ok (events, u)) : u.board = w.board := by
  cases phase : w.phase with
  | editing =>
    simp only [step, phase] at stepped
    cases stepped
    rfl
  | running =>
    -- Only the movement can fail, and after it no stage of the tick touches the board.
    cases movement : w.tickClock.resolveMovement with
    | error fault => simp [step, phase, advance, movement, bind, Except.bind] at stepped
    | ok moved =>
      obtain ⟨told, v⟩ := moved
      simp only [step, phase, advance, movement, bind, Except.bind, pure, Except.pure] at stepped
      cases stepped
      exact (sameScene_enterAll _ _).board.trans (resolveMovement_moves movement).sameScene.board

/-- The edits of a tile that an operation made: a refused edit tells nothing. -/
def editsOf (id : TileId) : Command → List Event → List Edit
  | .edit _ e, events => if .tileEdited id ∈ events then [e] else []
  | _, _ => []

def editsIn (id : TileId) (commands : List Command) (told : List (List Event)) : List Edit :=
  (commands.zip told).flatMap fun (c, events) => editsOf id c events

theorem tile?_of_perform (performed : w.perform c = .ok (events, u))
    (found : w.board.tile? id = some t) :
    ∃ kind, Edit.resultAll? t.edit.forbidden (editsOf id c events) t.kind = some kind ∧
      u.board.tile? id = some { t with kind := kind } := by
  cases c with
  | step => exact ⟨t.kind, rfl, (board_of_step performed) ▸ found⟩
  | changePhase target =>
    obtain rfl : (w.changePhase target).2 = u := congrArg Prod.snd (Except.ok.inj performed)
    exact ⟨t.kind, rfl, (board_of_changePhase w target) ▸ found⟩
  | edit tile e =>
    simp only [perform] at performed
    split at performed
    · next event v accepted =>
      cases performed
      obtain ⟨t', kind, -, found', verdict, rfl, rfl⟩ := edit_eq_ok accepted
      -- An accepted edit tells of its own tile, so it is counted for that one alone.
      rw [Board.tile?_setKind]
      by_cases same : tile = id
      · subst same
        cases found.symm.trans found'
        have result := (Edit.onTile_eq_ok verdict).1
        refine ⟨kind, ?_, by simp [found]⟩
        simp [Edit.resultAll?, editsOf, result]
      · have other : .tileEdited id ∉ [Event.tileEdited tile] := by
          simpa using Ne.symm same
        refine ⟨t.kind, ?_, by rw [if_neg same, found]⟩
        rw [editsOf, if_neg other]
        rfl
    · cases performed
      exact ⟨t.kind, rfl, found⟩
  | changeSpeed delta =>
    cases performed
    exact ⟨t.kind, rfl, found⟩
  | setSpeed speed =>
    cases performed
    exact ⟨t.kind, rfl, found⟩

/-- Whatever else goes on in a run, its accepted edits of a tile decide what becomes of the tile. -/
theorem tile?_of_run {commands : List Command} {told : List (List Event)}
    (ran : w.run commands = .ok (told, u)) (found : w.board.tile? id = some t) :
    ∃ kind, Edit.resultAll? t.edit.forbidden (editsIn id commands told) t.kind = some kind ∧
      u.board.tile? id = some { t with kind := kind } := by
  -- The tile is general: each operation may edit it before the rest of them run.
  induction commands generalizing w t told with
  | nil =>
    cases ran
    exact ⟨t.kind, rfl, found⟩
  | cons c rest ih =>
    obtain ⟨events, v, more, performed, later, rfl⟩ := run_cons_eq_ok ran
    obtain ⟨middle, first, found⟩ := tile?_of_perform performed found
    obtain ⟨kind, second, last⟩ := ih later found
    refine ⟨kind, ?_, last⟩
    have both : editsIn id (c :: rest) (events :: more) = editsOf id c events ++ editsIn id rest more :=
      rfl
    rw [both, Edit.resultAll?, List.foldlM_append]
    exact Option.bind_eq_some_iff.mpr ⟨middle, first, second⟩

/-- Cycling goes around the three registers, the five operations and the six comparators. When cyclings
of its register are all that a run has edited of a tile, then the register is where one cycling by the sum
of the steps leads, and nothing else of the tile is changed; so it is with cyclings of the operation of a
gem or of the comparator of a gate. -/
theorem cyclings_add_up :
    (GoesAround Register.cycled ∧ Nat.card Register = 3) ∧
    (GoesAround Operation.cycled ∧ Nat.card Operation = 5) ∧
    (GoesAround Comparator.cycled ∧ Nat.card Comparator = 6) ∧
    ∀ {w u : World} {commands : List Command} {told : List (List Event)} {id : TileId} {t : Tile}
      (steps : List Int), w.run commands = .ok (told, u) → w.board.tile? id = some t →
      (editsIn id commands told = steps.map .cycleRegister →
        u.board.tile? id = some { t with
          kind := t.kind.withRegister (·.cycled (steps.sum % Nat.card Register)) }) ∧
      (editsIn id commands told = steps.map .cycleOperation →
        u.board.tile? id = some { t with
          kind := t.kind.withOperation (·.cycled (steps.sum % Nat.card Operation))
            (·.cycled (steps.sum % Nat.card Comparator)) }) := by
  refine ⟨⟨Register.goesAround, Register.circle.card_eq⟩,
    ⟨Operation.goesAround, Operation.circle.card_eq⟩,
    ⟨Comparator.goesAround, Comparator.circle.card_eq⟩, fun steps ran found => ?_⟩
  obtain ⟨kind, result, last⟩ := tile?_of_run ran found
  refine ⟨fun cyclings => ?_, fun cyclings => ?_⟩
  · rw [cyclings] at result
    simp only [Register.goesAround.cycled_emod]
    rw [last, Edit.turning_cycleRegister.resultAll? result]
  · rw [cyclings] at result
    simp only [Operation.goesAround.cycled_emod, Comparator.goesAround.cycled_emod]
    rw [last, Edit.turning_cycleOperation.resultAll? result]

def loose : Board :=
  ((Board.empty "loose").addTile
    { Tile.place (.gem .ruby .add 1) ⟨0, 0, 0⟩ with edit := .fields true true true }).addTile
      { Tile.place (.gate .ruby .less 0) ⟨0, 0, 1⟩ with edit := .fields false true false }

def widely : List Command :=
  [.edit 0 (.cycleRegister (-2 ^ 31)), .edit 1 (.cycleOperation (2 ^ 31 - 1)), .changePhase .running,
    .edit 0 (.cycleRegister 1), .step, .changePhase .editing, .edit 1 (.cycleRegister 1),
    .edit 0 (.cycleRegister (-2 ^ 31)), .edit 1 (.cycleOperation (2 ^ 31 - 1))]

/-- The steps come to two and not, as a sum of words would, to none and to four. -/
theorem widest_cyclings_add_up :
    ∃ told w, play loose ⟨⟨0, 0.5, 0⟩, .identity⟩ .standard (.stepping 0 1) widely = .ok (told, w) ∧
      editsIn 0 widely told = [.cycleRegister (-2 ^ 31), .cycleRegister (-2 ^ 31)] ∧
      (w.board.tile? 0).map (·.kind) = some (.gem .emerald .add 1) ∧
      (w.board.tile? 1).map (·.kind) = some (.gate .ruby .equal 0) := by
  have cycles : (play loose ⟨⟨0, 0.5, 0⟩, .identity⟩ .standard (.stepping 0 1) widely).toOption.any
      (fun played => decide
        (editsIn 0 widely played.1 = [-2 ^ 31, -2 ^ 31].map .cycleRegister ∧
          editsIn 1 widely played.1 = [2 ^ 31 - 1, 2 ^ 31 - 1].map .cycleOperation)) = true := by
    decide +kernel
  obtain ⟨⟨told, w⟩, played, accepted⟩ := exists_of_any cycles
  obtain ⟨first, second⟩ := of_decide_eq_true accepted
  obtain ⟨start, opens, ran⟩ := play_eq_ok played
  obtain ⟨p, -, rfl⟩ := opened_eq_ok opens
  obtain ⟨⟨-, three⟩, ⟨-, five⟩, ⟨-, six⟩, adds⟩ := cyclings_add_up
  have gem := (adds [-2 ^ 31, -2 ^ 31] ran rfl).1 first
  have gate := (adds [2 ^ 31 - 1, 2 ^ 31 - 1] ran rfl).2 second
  rw [three] at gem
  rw [five, six] at gate
  exact ⟨told, w, played, first, by rw [gem]; rfl, by rw [gate]; rfl⟩

end World
end Tilewalk
