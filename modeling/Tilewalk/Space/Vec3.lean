/-! Points and directions of the board's space: x runs to the right, z runs up the board, and y is
the height above it. -/

set_option autoImplicit false

namespace Tilewalk

structure Vec3 where
  x : Float32
  y : Float32
  z : Float32
deriving DecidableEq

namespace Vec3

def zero : Vec3 := ⟨0, 0, 0⟩

def up : Vec3 := ⟨0, 1, 0⟩

instance : Add Vec3 where
  add a b := ⟨a.x + b.x, a.y + b.y, a.z + b.z⟩

instance : HMul Vec3 Float32 Vec3 where
  hMul v s := ⟨v.x * s, v.y * s, v.z * s⟩

def dot (a b : Vec3) : Float32 :=
  a.x * b.x + a.y * b.y + a.z * b.z

def length (v : Vec3) : Float32 :=
  (v.dot v).sqrt

def flat (v : Vec3) : Vec3 := ⟨v.x, 0, v.z⟩

def isZero (v : Vec3) : Bool :=
  v.x == 0 && v.y == 0 && v.z == 0

@[simp] theorem add_x (a b : Vec3) : (a + b).x = a.x + b.x := rfl
@[simp] theorem add_y (a b : Vec3) : (a + b).y = a.y + b.y := rfl
@[simp] theorem add_z (a b : Vec3) : (a + b).z = a.z + b.z := rfl

end Vec3
end Tilewalk
