import Tilewalk.Tile.Direction
import Tilewalk.Tile.Register
import Tilewalk.Tile.Operation
import Tilewalk.Tile.Comparator

/-! The kinds of tile. A gem tile computes on a register, a gate tile tests one, an arrow turns the
player, the two ends of a teleport share a group number, and the goal completes the stage. -/

set_option autoImplicit false

namespace Tilewalk

abbrev TileId := Nat

inductive TeleportRole where
  | source
  | destination
deriving DecidableEq

inductive TileKind where
  | floor
  | start
  | goal
  | arrow (direction : Direction)
  | gem (register : Register) (operation : Operation) (operand : Int32)
  | gate (register : Register) (comparator : Comparator) (threshold : Int32)
  | teleport (group : UInt8) (role : TeleportRole)
deriving DecidableEq

namespace TileKind

/-- Whether entering the tile does anything. A passive tile is never triggered. -/
def hasEffect : TileKind → Bool
  | floor | start | teleport _ .destination => false
  | _ => true

def label : TileKind → String
  | floor => "floor"
  | start => "start"
  | goal => "goal"
  | arrow _ => "arrow"
  | gem .. => "variable"
  | gate .. => "if"
  | teleport _ .source => "teleport in"
  | teleport _ .destination => "teleport out"

def valueGlyph (v : Int32) : Char :=
  if 0 ≤ v ∧ v ≤ 9 then Char.ofNat ('0'.toNat + v.toInt.toNat) else '#'

def glyph : TileKind → String
  | floor => " . "
  | start => " S "
  | goal => " G "
  | arrow d => String.ofList [' ', d.glyph, ' ']
  | gem r o n => String.ofList [r.initial, o.symbol, valueGlyph n]
  | gate r c n => String.ofList [r.initial, c.glyph, valueGlyph n]
  | teleport g .source => "T" ++ toString g.toNat ++ ">"
  | teleport g .destination => ">T" ++ toString g.toNat

def shortGlyph (kind : TileKind) : String :=
  String.ofList (kind.glyph.toList.filter (· != ' '))

end TileKind
end Tilewalk
