import Tilewalk.Phase
import Tilewalk.Tile.Kind

/-! What a step, a change of phase or an edit reports. -/

set_option autoImplicit false

namespace Tilewalk

inductive Event where
  | phaseChanged (phase : Phase)
  | variableChanged (register : Register) (value : Int32)
  | directionChanged (tile : TileId) (direction : Direction)
  /-- The armed skip swallowed the tile's effect. -/
  | effectSkipped (tile : TileId)
  | conditionEvaluated (tile : TileId) (passed : Bool)
  | teleported (source target : TileId) (group : UInt8)
  /-- The group of the tile has no destination. -/
  | teleportFailed (tile : TileId) (group : UInt8)
  | fallStarted
  | levelComplete
  | gemHidden (tile : TileId)
  | gemRestored (tile : TileId)
  | tileEdited (tile : TileId)
deriving DecidableEq

namespace Event

def ofChange (c : Change) : Event := .variableChanged c.register c.value

end Event
end Tilewalk
