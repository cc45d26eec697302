import Tilewalk.Body
import Tilewalk.Fault
import Tilewalk.Grid.Cell
import Tilewalk.Phase
import Tilewalk.Tile.Direction
import Tilewalk.Tumble

/-! The player: a body with the state of its movement. The player travels along its heading, stands,
or falls; a fall ends only with a change of phase, which puts the player back on its spawn pose. -/

set_option autoImplicit false

namespace Tilewalk

structure Player where
  body : Body
  heading : Direction
  speed : Float32
  speedLimit : Float32
  /-- Travelling along the heading, on the ground. -/
  isMoving : Bool
  /-- Off the floor until the next change of phase. -/
  isFalling : Bool
  /-- The next tile with an effect is to be skipped. -/
  skipArmed : Bool
  /-- Seconds for which the player is still held after a teleport. -/
  cooldown : Float32
  spawn : Pose
  /-- The phase that was last told to the player. -/
  phase : Phase
deriving DecidableEq

namespace Player

/-- The greatest speed that any limit allows, in tiles per second. -/
def topSpeed : Float32 := 10

def spawned (spawn : Pose) (speed limit : Float32) : Except Fault Player :=
  let limit := Binary32.clamp limit 0 topSpeed
  if limit.isNaN then .error .speedLimit
  else .ok ⟨.grounded spawn, .up, Binary32.clamp speed 0 limit, limit, false, false, false, 0,
    spawn, .editing⟩

def position (p : Player) : Vec3 := p.body.position

/-- Seconds needed to cross a tile; without a positive speed it takes forever. -/
def crossingTime (p : Player) (size : Float32) : Float32 :=
  if p.speed ≤ 0 then Float32.ofBits 0x7f800000 else size / p.speed

def setSpeed (p : Player) (v : Float32) : Player :=
  { p with speed := Binary32.clamp v 0 p.speedLimit }

def changeSpeed (p : Player) (delta : Float32) : Player :=
  p.setSpeed (p.speed + delta)

def setMoving (p : Player) (on : Bool) : Player :=
  if on && p.isFalling then p else { p with isMoving := on }

def armSkip (p : Player) : Player :=
  { p with skipArmed := true }

def takeSkip (p : Player) : Bool × Player :=
  (p.skipArmed, { p with skipArmed := false })

/-- Hold the player for `duration` seconds with its body stopped. -/
def startCooldown (p : Player) (duration : Float32) : Player :=
  { p with
    cooldown := Binary32.atLeast 0 duration
    body := { p.body with velocity := .zero } }

def tickCooldown (p : Player) (dt : Float32) : Bool × Player :=
  if p.cooldown ≤ 0 then (false, p)
  else (true, { p with cooldown := Binary32.atLeast 0 (p.cooldown - dt) })

def warp (p : Player) (target : Vec3) : Player :=
  { p with body := { p.body with position := ⟨target.x, p.body.position.y, target.z⟩ } }

def snap (p : Player) : Player :=
  p.warp ((Cell.containing p.position).center p.position.y)

def travel (p : Player) : Player :=
  { p with body := { p.body with velocity := p.heading.vector * p.speed } }

/-- Leave the floor: the velocity stays, gravity takes the body, and it tumbles with a random spin no
faster than its speed in the plane. -/
def startFall (p : Player) (words : WordSource) : Except Fault (Player × WordSource) :=
  let s := p.body.horizontalSpeed
  if Tumble.usable s then
    let (spin, words) := Tumble.draw s words
    .ok ({ p with
      isMoving := false
      isFalling := true
      body := { p.body with spin := spin, usesGravity := true, rotationLocked := false } }, words)
  else .error .spinRange

def stopAtGoal (p : Player) : Player :=
  { p with isMoving := false, body := { p.body with velocity := .zero, spin := .zero } }

def respawn (p : Player) : Player :=
  { p with
    body := .grounded p.spawn
    heading := .up
    isFalling := false
    skipArmed := false
    cooldown := 0 }

instance : PhaseListener Player where
  onPhase phase p :=
    if phase = p.phase then p
    else { p.respawn with isMoving := decide (phase = .running), phase := phase }

end Player
end Tilewalk
