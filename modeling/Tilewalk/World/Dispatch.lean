import Tilewalk.Effect
import Tilewalk.Grid.Contact
import Tilewalk.World.Basic

/-! Running the effect of a tile. Each effect is a function of its own, and a tile whose effect cannot
run leaves the world as it was. -/

set_option autoImplicit false

namespace Tilewalk
namespace World

def turnPlayer (w : World) (direction : Direction) : World :=
  { w with player := { w.player.snap with heading := direction } }

/-- Compute on a register and hide the tile's gem for as long as the player needs to cross a tile. -/
def runOperation (w : World) (tile : TileId) (r : Register) (o : Operation) (n : Int32) : World :=
  { w with
    registers := w.registers.operate r o n
    timers := (w.timers.start w.time (w.player.crossingTime tileSize) tile).2 }

def settleCondition (w : World) (passed : Bool) : World :=
  if passed then w else { w with player := w.player.armSkip }

def exit? (w : World) (group : UInt8) : Option (TileId × Vec3) := do
  let id ← w.board.teleports.destination group
  let tile ← w.board.tile? id
  return (id, tile.position)

def jump (w : World) (position : Vec3) : World :=
  { w with player := (w.player.warp position).startCooldown w.config.teleportCooldown }

def reachGoal (w : World) : World :=
  { w with player := w.player.stopAtGoal, complete := true }

def runEffect (w : World) (tile : TileId) : Effect → Option Event × World
  | .passive => (none, w)
  | .turn d => (some (.directionChanged tile d), w.turnPlayer d)
  | .operate r o n => (some (.gemHidden tile), w.runOperation tile r o n)
  | .condition passed => (some (.conditionEvaluated tile passed), w.settleCondition passed)
  | .teleport group =>
    match w.exit? group with
    | none => (some (.teleportFailed tile group), w)
    | some (target, position) => (some (.teleported tile target group), w.jump position)
  | .complete => (if w.complete then none else some .levelComplete, w.reachGoal)

/-- Enter a tile. A tile with an effect uses up an armed skip in place of its effect; a passive tile
and a number without a tile do nothing. -/
def dispatch (w : World) (tile : TileId) : Option Event × World :=
  match w.board.tile? tile with
  | none => (none, w)
  | some t =>
    if t.kind.hasEffect then
      let (skipped, player) := w.player.takeSkip
      if skipped then (some (.effectSkipped tile), { w with player := player })
      else w.runEffect tile (Effect.ofKind t.kind w.registers)
    else (none, w)

end World
end Tilewalk
