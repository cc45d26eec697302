import Tilewalk.Registers
import Tilewalk.Tile.Kind

/-! What entering a tile means, decided from its kind and the registers without changing anything. -/

set_option autoImplicit false

namespace Tilewalk

inductive Effect where
  | passive
  | turn (direction : Direction)
  | operate (register : Register) (operation : Operation) (operand : Int32)
  /-- A comparison was made; a failure skips the next tile. -/
  | condition (passed : Bool)
  | teleport (group : UInt8)
  | complete
deriving DecidableEq

namespace Effect

def ofKind (kind : TileKind) (s : Registers) : Effect :=
  match kind with
  | .floor | .start | .teleport _ .destination => .passive
  | .arrow d => .turn d
  | .gem r o n => .operate r o n
  | .gate r c n => .condition (c.holds (s.get r) n)
  | .teleport g .source => .teleport g
  | .goal => .complete

end Effect
end Tilewalk
