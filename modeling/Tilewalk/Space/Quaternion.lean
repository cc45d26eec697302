import Tilewalk.Space.Vec3

/-! Rotations as unit quaternions. A turn is built from an axis and an angle, turns compose by
multiplication, and the product is brought back to unit length. -/

set_option autoImplicit false

namespace Tilewalk

structure Quaternion where
  x : Float32
  y : Float32
  z : Float32
  w : Float32
deriving DecidableEq

namespace Quaternion

def identity : Quaternion := ⟨0, 0, 0, 1⟩

def ofAxisAngle (axis : Vec3) (angle : Float32) : Quaternion :=
  let half := angle * 0.5
  let v := axis * half.sin
  ⟨v.x, v.y, v.z, half.cos⟩

instance : Mul Quaternion where
  mul a b :=
    ⟨a.w * b.x + a.x * b.w + a.y * b.z - a.z * b.y,
     a.w * b.y - a.x * b.z + a.y * b.w + a.z * b.x,
     a.w * b.z + a.x * b.y - a.y * b.x + a.z * b.w,
     a.w * b.w - a.x * b.x - a.y * b.y - a.z * b.z⟩

def normalize (q : Quaternion) : Quaternion :=
  let r := 1 / (q.x * q.x + q.y * q.y + q.z * q.z + q.w * q.w).sqrt
  ⟨q.x * r, q.y * r, q.z * r, q.w * r⟩

/-- Component by component the same numbers, whatever the signs of their zeros. -/
def agrees (a b : Quaternion) : Bool :=
  a.x == b.x && a.y == b.y && a.z == b.z && a.w == b.w

end Quaternion
end Tilewalk
