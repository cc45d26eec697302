import Tilewalk.Proofs.Stage.Layout
import Tilewalk.Proofs.World.Teleporting

/-! Glyphs of three characters. The number of a teleport's group has one digit on the board of a stage, and
authoring leaves teleports alone, so every tile of a run fills the columns of its cell exactly. -/

set_option autoImplicit false

namespace Tilewalk

/-- The text has three characters, and the middle one is none of those that stand for the player. -/
def FillsCell (text : String) : Prop :=
  ∃ first middle last, text.toList = [first, middle, last] ∧ middle ≠ '@' ∧ middle ≠ 'x'

namespace TileKind

theorem fillsCell_glyph {kind : TileKind}
    (narrow : ∀ group role, kind = teleport group role → group < 10) : FillsCell kind.glyph := by
  cases kind with
  | floor => exact ⟨' ', '.', ' ', rfl, by decide, by decide⟩
  | start => exact ⟨' ', 'S', ' ', rfl, by decide, by decide⟩
  | goal => exact ⟨' ', 'G', ' ', rfl, by decide, by decide⟩
  | arrow d =>
    exact ⟨' ', d.glyph, ' ', String.toList_ofList, by cases d <;> decide, by cases d <;> decide⟩
  | gem r o n =>
    exact ⟨r.initial, o.symbol, valueGlyph n, String.toList_ofList, by cases o <;> decide,
      by cases o <;> decide⟩
  | gate r c n =>
    exact ⟨r.initial, c.glyph, valueGlyph n, String.toList_ofList, by cases c <;> decide,
      by cases c <;> decide⟩
  | teleport group role =>
    have digit : group.toNat < 10 := narrow group role rfl
    have other : ∀ n < 10, Nat.digitChar n ≠ '@' ∧ Nat.digitChar n ≠ 'x' := by decide
    cases role with
    | source =>
      refine ⟨'T', group.toNat.digitChar, '>', ?_, other _ digit⟩
      simp [glyph, Nat.toDigits_of_lt_base digit]
    | destination =>
      refine ⟨'>', 'T', group.toNat.digitChar, ?_, by decide, by decide⟩
      simp [glyph, Nat.toDigits_of_lt_base digit]

end TileKind

def Board.Narrow (b : Board) : Prop :=
  ∀ id group role, b.kind? id = some (.teleport group role) → group < 10

theorem StageFile.narrow_board (f : StageFile) : f.board.Narrow := by
  intro id group role found
  rw [Board.kind?, tile?_board] at found
  obtain ⟨t, there, same⟩ := Option.map_eq_some_iff.mp found
  obtain ⟨⟨row, column, code⟩, -, made⟩ := Option.bind_eq_some_iff.mp there
  obtain ⟨kind, known, rfl⟩ := Option.map_eq_some_iff.mp made
  obtain rfl : kind = .teleport group role := same
  cases kindOf_eq_some_iff.mp known with
  | destination digit => exact digit
  | source digit => exact digit

theorem World.narrow_of_play {f : StageFile} {stage : Stage} (built : f.build = .ok stage)
    {spawn : Pose} {config : SimConfig} {words : WordSource} {commands : List Command}
    {told : List (List Event)} {w : World}
    (played : play stage.board spawn config words commands = .ok (told, w)) : w.board.Narrow := by
  intro id group role found
  have loaded := ((authored_of_play played).kind?_teleport id).mp found
  rw [(f.build_eq_ok built).2.2.1] at loaded
  exact f.narrow_board id group role loaded

end Tilewalk
