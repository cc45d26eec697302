import Tilewalk.World.Dispatch

/-! One tick of the simulation. The player's movement is decided first, then the body moves, then
newly entered tiles run their effects, then timers come due, and last the registers' notifications
are handed over. Nothing happens while authoring. -/

set_option autoImplicit false

namespace Tilewalk
namespace World

def tickClock (w : World) : World :=
  { w with tick := w.tick + 1, time := w.time + Binary64.widen w.config.dt }

/-- Decide the movement of a player that is not held: travel over floor, or begin to fall. -/
def move (w : World) : Except Fault (List Event × World) :=
  if !w.player.isMoving then .ok ([], w)
  else if w.board.cells.hasFloorAt w.player.position then
    .ok ([], { w with player := w.player.travel })
  else do
    let (player, words) ← w.player.startFall w.words
    return ([.fallStarted], { w with player := player, words := words })

def resolveMovement (w : World) : Except Fault (List Event × World) :=
  let (held, player) := w.player.tickCooldown w.config.dt
  let w := { w with player := player }
  if held then .ok ([], w) else w.move

def integrate (w : World) : World :=
  { w with player := { w.player with
    body := w.player.body.integrate w.config.dt w.config.gravity } }

def touches (w : World) (position : Vec3) (t : Tile) : Bool :=
  t.kind.hasEffect
    && overlaps position w.config.playerHalfExtent t.position w.config.triggerHalfExtent

def touched (w : World) : List TileId :=
  (w.board.tiles.zipIdx.filter fun (t, _) => w.touches w.player.position t).map (·.2)

/-- Whether a newly entered tile may act: only while the player moves and is not held. -/
def admits (w : World) : Bool :=
  w.player.isMoving && !decide (0 < w.player.cooldown)

def enter (w : World) (tile : TileId) : Option Event × World :=
  if w.admits then w.dispatch tile else (none, w)

/-- Let newly entered tiles act one after another; a goal or a teleport suppresses the rest. -/
def enterAll (w : World) : List TileId → List Event × World
  | [] => ([], w)
  | tile :: rest =>
    let (event, w) := w.enter tile
    let (events, w) := w.enterAll rest
    (event.toList ++ events, w)

def resolveContacts (w : World) : List Event × World :=
  let (entered, contacts) := w.contacts.update w.touched
  enterAll { w with contacts := contacts } entered

def resolveTimers (w : World) : List Event × World :=
  let (gems, timers) := w.timers.takeDue w.time
  (gems.map .gemRestored, { w with timers := timers })

def advance (w : World) : Except Fault (List Event × World) := do
  let (moved, w) ← w.tickClock.resolveMovement
  let (entered, w) := w.integrate.resolveContacts
  let (restored, w) := w.resolveTimers
  let (changes, w) := w.drainChanges
  return (moved ++ entered ++ restored ++ changes, w)

def step (w : World) : Except Fault (List Event × World) :=
  match w.phase with
  | .editing => .ok ([], w)
  | .running => w.advance

end World
end Tilewalk
