import Tilewalk.Grid.Cell
import Tilewalk.Tile.EditRule

/-! Tiles of a board: a kind at a position, with the rule for editing it. -/

set_option autoImplicit false

namespace Tilewalk

structure Tile where
  kind : TileKind
  /-- The centre of the trigger volume. -/
  position : Vec3
  cell : Cell
  edit : EditRule
deriving DecidableEq

namespace Tile

def place (kind : TileKind) (position : Vec3) : Tile :=
  ⟨kind, position, Cell.containing position, .locked⟩

def glyph (t : Tile) : String := t.kind.glyph

end Tile
end Tilewalk
