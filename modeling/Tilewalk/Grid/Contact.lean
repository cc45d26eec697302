import Tilewalk.Space.Vec3

/-! Contact between two square trigger volumes of the board's plane. -/

set_option autoImplicit false

namespace Tilewalk

/-- Whether two squares given by centre and half extent overlap; squares that only touch do not. -/
def overlaps (a : Vec3) (aHalf : Float32) (b : Vec3) (bHalf : Float32) : Bool :=
  let reach := aHalf + bHalf
  decide ((a.x - b.x).abs < reach) && decide ((a.z - b.z).abs < reach)

end Tilewalk
