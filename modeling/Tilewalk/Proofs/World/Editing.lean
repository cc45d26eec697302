import Tilewalk.Proofs.Authoring
import Tilewalk.Proofs.World.Skipping

/-! The board in any run. Only an accepted edit changes it, never while the simulation runs, and every
tile stays within what its rule lets it become. -/

set_option autoImplicit false

namespace Tilewalk
namespace World

open Event

variable {w u : World}

theorem Performs.board_cases {c : Command} {events : List Event} (performs : Performs w c events u) :
    (u.board = w.board ∧ ∀ tile, .tileEdited tile ∉ events) ∨
      ∃ tile e t kind, w.phase = .editing ∧ w.board.tile? tile = some t ∧
        Edit.onTile e tile t = .ok kind ∧ events = [.tileEdited tile] ∧
        u.board = w.board.setKind tile kind := by
  cases performs with
  | ticks _ ticks =>
    refine .inl ⟨ticks.sameStage.board, fun tile member => ?_⟩
    -- Nothing that a tick tells is an edit.
    rcases ticks.tells member with fall | acted | routine
    · cases fall
    · cases acted
    · cases routine
  | restarts =>
    refine .inl ⟨rfl, fun tile member => ?_⟩
    rcases List.mem_cons.mp member with changed | handed
    · cases changed
    · cases routine_of_handed _ handed
  | edits editing found accepted => exact .inr ⟨_, _, _, _, editing, found, accepted, rfl, rfl⟩
  | _ => exact .inl ⟨rfl, fun tile member => by cases member⟩

theorem Performs.authored {c : Command} {events : List Event} (performs : Performs w c events u)
    {loaded : Board} {edited : TileId → Prop} (authored : loaded.Authored edited w.board) :
    ∃ edited', loaded.Authored edited' u.board := by
  rcases performs.board_cases with ⟨same, -⟩ | ⟨tile, e, t, kind, -, found, accepted, -, now⟩
  · exact ⟨edited, same ▸ authored⟩
  · exact ⟨_, now ▸ authored.setKind found accepted⟩

theorem authored_of_play {board : Board} {spawn : Pose} {config : SimConfig} {words : WordSource}
    {commands : List Command} {told : List (List Event)}
    (played : play board spawn config words commands = .ok (told, w)) :
    board.Authored (fun tile => .tileEdited tile ∈ told.flatten) w.board := by
  refine play_preserves
    (fun past v => board.Authored (fun tile => .tileEdited tile ∈ past) v.board) ?_ ?_ played
  · intro start made
    obtain ⟨p, -, rfl⟩ := opened_eq_ok made
    simpa using board.authored_self
  · intro past v x c events _ authored performs
    rcases performs.board_cases with ⟨same, untold⟩ | ⟨tile, e, t, kind, -, found, accepted, rfl, now⟩
    · have edits (tile : TileId) : .tileEdited tile ∈ past ++ events ↔ .tileEdited tile ∈ past := by
        simp [untold tile]
      simpa only [edits, same] using authored
    · rw [now]
      simpa using authored.setKind found accepted

/-- Of a board only the kinds of tiles ever change, by edits that the tile's rule permits, and nothing
of it while the simulation runs. -/
theorem board_changes_by_permission {board : Board} {spawn : Pose} {config : SimConfig}
    {words : WordSource} {commands : List Command} {told : List (List Event)}
    (played : play board spawn config words commands = .ok (told, w)) :
    w.board.name = board.name ∧ w.board.cells = board.cells ∧
    w.board.teleports = board.teleports ∧ w.board.tiles.length = board.tiles.length ∧
    (∀ id t, board.tile? id = some t → ∃ t', w.board.tile? id = some t' ∧
      t'.position = t.position ∧ t'.cell = t.cell ∧ t'.edit = t.edit ∧
      t'.kind.ctorIdx = t.kind.ctorIdx ∧
      (t.edit = .locked ∨ ¬ t.edit.Fits t.kind → t'.kind = t.kind) ∧
      (∀ register operation value, t.edit = .fields register operation value →
        t.kind.SameBut register operation value t'.kind) ∧
      (∀ forbidden d, t.edit = .arrow forbidden → t.kind = .arrow d →
        ∃ d', t'.kind = .arrow d' ∧
          (forbidden = some d' → d' = d ∧ .tileEdited id ∉ told.flatten)) ∧
      (.tileEdited id ∉ told.flatten → t' = t)) ∧
    ∀ c events u, w.phase = .running → w.perform c = .ok (events, u) → u.board = w.board := by
  have authored := authored_of_play played
  refine ⟨authored.name, authored.cells, authored.teleports, authored.size, ?_, ?_⟩
  · intro id t found
    obtain ⟨kind, now, lets, untouched, free⟩ := authored.tiles id t found
    refine ⟨_, now, rfl, rfl, rfl, lets.ctorIdx_eq, ?_, ?_, ?_, ?_⟩
    · rintro (locked | unfit)
      · rw [locked] at lets
        exact lets.eq_of_locked
      · exact lets.eq_of_not_fits unfit
    · intro register operation value rule
      rw [rule] at lets
      exact lets.sameBut
    · intro forbidden d rule old
      -- The forbidden heading can only be there from the start, and then no accepted edit has touched the
      -- tile.
      have kept := lets
      rw [rule, old] at kept
      obtain ⟨d', rfl, same⟩ := kept.arrow
      refine ⟨d', rfl, fun forbids => ⟨same.resolve_right (absurd forbids), fun edited => ?_⟩⟩
      exact free edited d' (by rw [rule]; exact forbids) rfl
    · intro untold
      rw [untouched untold]
  · intro c events u running result
    have settled := (reachable_of_play played).settled
    rcases (settled.performs result).board_cases with ⟨same, -⟩ | ⟨_, _, _, _, editing, -⟩
    · exact same
    · cases editing.symm.trans running

def closed : Board :=
  ((Board.empty "closed").addTile
    { Tile.place (.arrow .up) ⟨0, 0, 0⟩ with edit := .arrow (some .right) }).addTile
      (.place (.gem .ruby .add 1) ⟨0, 0, 1⟩)

theorem closed_board_keeps_its_rules :
    ∃ told w arrow gem, play closed ⟨⟨0, 0.5, 0⟩, .identity⟩ .standard (.stepping 0 1)
        [.edit 0 .rotate, .edit 0 (.setDirection .right), .edit 1 (.setGemValue 9)] = .ok (told, w) ∧
      told.flatten = [.tileEdited 0] ∧
      w.board.tile? 0 = some arrow ∧ arrow.kind ≠ .arrow .right ∧
      w.board.tile? 1 = some gem ∧ gem.kind = .gem .ruby .add 1 := by
  have edits : (play closed ⟨⟨0, 0.5, 0⟩, .identity⟩ .standard (.stepping 0 1)
      [.edit 0 .rotate, .edit 0 (.setDirection .right), .edit 1 (.setGemValue 9)]).toOption.any
      (fun played => decide (played.1.flatten = [.tileEdited 0])) = true := by
    decide +kernel
  obtain ⟨⟨told, w⟩, played, tells⟩ := exists_of_any edits
  have tells := of_decide_eq_true tells
  obtain ⟨-, -, -, -, tiles, -⟩ := board_changes_by_permission played
  obtain ⟨arrow, first, -, -, -, -, -, -, aims, -⟩ := tiles 0 _ rfl
  obtain ⟨gem, second, -, -, -, -, kept, -⟩ := tiles 1 _ rfl
  obtain ⟨d', points, allowed⟩ := aims _ _ rfl rfl
  refine ⟨told, w, arrow, gem, played, tells, first, ?_, second, kept (.inl rfl)⟩
  intro right
  obtain rfl : d' = .right := TileKind.arrow.inj (points.symm.trans right)
  have untold := (allowed rfl).2
  rw [tells] at untold
  exact untold List.mem_cons_self

end World
end Tilewalk
