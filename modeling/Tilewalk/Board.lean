import Tilewalk.Grid.CellSet
import Tilewalk.Teleports
import Tilewalk.Tile.Basic

/-! The board of a stage: its tiles in the order of their numbers, its floor and its teleport
destinations. -/

set_option autoImplicit false

namespace Tilewalk

structure Board where
  name : String
  tiles : List Tile
  cells : CellSet
  teleports : Teleports

namespace Board

def empty (name : String) : Board := ⟨name, [], .empty, .none⟩

def addFloor (b : Board) (c : Cell) : Board :=
  { b with cells := b.cells.insert c }

def register (b : Board) (t : Tile) : Except TeleportConflict Teleports :=
  match t.kind with
  | .teleport group .destination => b.teleports.register group b.tiles.length
  | _ => .ok b.teleports

/-- Add a tile with floor under it. A destination that comes too late for its group stays on the
board as a tile that does nothing. -/
def addTile (b : Board) (t : Tile) : Board :=
  { b with
    tiles := b.tiles ++ [t]
    cells := b.cells.insert t.cell
    teleports := match b.register t with
      | .ok teleports => teleports
      | .error _ => b.teleports }

def conflict? (b : Board) (t : Tile) : Option TeleportConflict :=
  match b.register t with
  | .ok _ => none
  | .error c => some c

def tile? (b : Board) (id : TileId) : Option Tile := b.tiles[id]?

def tileAt? (b : Board) (c : Cell) : Option TileId :=
  b.tiles.findIdx? (fun t => t.cell = c)

def startTile? (b : Board) : Option TileId :=
  b.tiles.findIdx? (fun t => t.kind = .start)

def setKind (b : Board) (id : TileId) (kind : TileKind) : Board :=
  { b with tiles := b.tiles.modify id (fun t => { t with kind := kind }) }

end Board
end Tilewalk
