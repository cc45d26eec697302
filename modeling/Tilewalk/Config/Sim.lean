import Tilewalk.Fault
import Tilewalk.Player

/-! The settings of the simulation, brought into their legal ranges. A tick is short enough that one
step at the greatest speed cannot carry the player past a trigger volume. -/

set_option autoImplicit false

namespace Tilewalk

structure SimConfig where
  tickRateMs : UInt64
  initialSpeed : Float32
  maxSpeed : Float32
  teleportCooldown : Float32
  gravity : Float32
  playerHalfExtent : Float32
  triggerHalfExtent : Float32
  /-- The seed of the tumble, when it is to be repeatable. -/
  fallSeed : Option UInt64
deriving DecidableEq

inductive ConfigWarning where
  /-- A configuration file exists and cannot be read. -/
  | unreadable
  /-- The configuration is not a valid document, and the defaults are used. -/
  | invalid
  | maxSpeed
  | tickRate
deriving DecidableEq

namespace SimConfig

def standard : SimConfig where
  tickRateMs := 20
  initialSpeed := 2.0
  maxSpeed := 10.0
  teleportCooldown := 0.05
  gravity := 9.81
  playerHalfExtent := 0.25
  triggerHalfExtent := 0.1
  fallSeed := none

def dt (c : SimConfig) : Float32 :=
  c.tickRateMs.toFloat32 / 1000

/-- How far apart the centres of the player and of a tile may be while they overlap. -/
def reach (c : SimConfig) : Float32 :=
  c.playerHalfExtent + c.triggerHalfExtent

/-- The longest tick in which a player at `maxSpeed` covers no more than `reach`; at least one
millisecond, and without a positive speed any length. The summand absorbs the rounding of the
extents. -/
def longestTickMs (maxSpeed reach : Float32) : UInt64 :=
  if maxSpeed ≤ 0 then 0xffffffffffffffff
  else max 1 (reach / maxSpeed * 1000 + 0.001).toUInt64

/-- The settings brought into range, with a warning for each one that had to be lowered. -/
def legalize (c : SimConfig) : Except Fault (SimConfig × List ConfigWarning) :=
  let maxSpeed := Binary32.clamp c.maxSpeed 0 Player.topSpeed
  let speedWarning := if maxSpeed == c.maxSpeed then [] else [ConfigWarning.maxSpeed]
  if maxSpeed.isNaN then .error .speedLimit
  else
    let tick := min (max c.tickRateMs 1) (longestTickMs maxSpeed c.reach)
    let tickWarning := if tick < c.tickRateMs then [ConfigWarning.tickRate] else []
    .ok ({ c with
      tickRateMs := tick
      initialSpeed := Binary32.clamp c.initialSpeed 0 maxSpeed
      maxSpeed := maxSpeed }, speedWarning ++ tickWarning)

end SimConfig
end Tilewalk
