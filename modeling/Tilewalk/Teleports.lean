import Tilewalk.Tile.Kind

/-! The destinations of the ten teleport groups. The first tile registered for a group stays its
destination. -/

set_option autoImplicit false

namespace Tilewalk

/-- A tile came too late to be the destination of its group. -/
structure TeleportConflict where
  group : UInt8
  existing : TileId
  rejected : TileId
deriving DecidableEq

namespace TeleportConflict

def message (c : TeleportConflict) : String :=
  "teleport group " ++ toString c.group.toNat ++ ": destination already registered (tile "
    ++ toString c.existing ++ "), tile " ++ toString c.rejected ++ " ignored"

end TeleportConflict

structure Teleports where
  slots : Vector (Option TileId) 10
deriving DecidableEq

namespace Teleports

def none : Teleports := ⟨.replicate 10 .none⟩

def destination (t : Teleports) (group : UInt8) : Option TileId :=
  t.slots[group.toNat]?.join

/-- Make a tile the destination of a group that has none yet. Other groups than 0 to 9 are passed
over. -/
def register (t : Teleports) (group : UInt8) (tile : TileId) : Except TeleportConflict Teleports :=
  match t.destination group with
  | some existing => .error ⟨group, existing, tile⟩
  | .none => .ok ⟨t.slots.setIfInBounds group.toNat (some tile)⟩

end Teleports
end Tilewalk
