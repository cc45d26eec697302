import Tilewalk.Space.Quaternion

/-! The moving body: a position and a rotation with their velocities. A step of integration changes
the velocity by gravity first and the position by the new velocity after it; the rotation turns only
while it is unlocked. -/

set_option autoImplicit false

namespace Tilewalk

structure Pose where
  position : Vec3
  rotation : Quaternion
deriving DecidableEq

structure Body where
  position : Vec3
  rotation : Quaternion
  velocity : Vec3
  spin : Vec3
  usesGravity : Bool
  rotationLocked : Bool
deriving DecidableEq

namespace Body

def grounded (pose : Pose) : Body :=
  ⟨pose.position, pose.rotation, .zero, .zero, false, true⟩

def horizontalSpeed (b : Body) : Float32 :=
  b.velocity.flat.length

/-- The rotation after turning for `dt` seconds. There is no turn when the angle is not positive. -/
def turned (b : Body) (dt : Float32) : Quaternion :=
  let rate := b.spin.length
  let angle := rate * dt
  if 0 < angle then
    (Quaternion.ofAxisAngle (b.spin * (1 / rate)) angle * b.rotation).normalize
  else b.rotation

def accelerated (b : Body) (dt gravity : Float32) : Vec3 :=
  if b.usesGravity then { b.velocity with y := b.velocity.y - gravity * dt } else b.velocity

def integrate (b : Body) (dt gravity : Float32) : Body :=
  let velocity := b.accelerated dt gravity
  { b with
    velocity := velocity
    position := b.position + velocity * dt
    rotation := if b.rotationLocked then b.rotation else b.turned dt }

end Body
end Tilewalk
