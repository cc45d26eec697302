import Tilewalk.Number.Binary32
import Tilewalk.Space.Vec3

/-! Cells of the integer grid, one unit wide. A position stands on the cell whose centre is nearest. -/

set_option autoImplicit false

namespace Tilewalk

def tileSize : Float32 := 1

structure Cell where
  x : Int32
  z : Int32
deriving DecidableEq

namespace Cell

/-- The cell under a position: x and z rounded to the nearest integer, a half going away from zero,
whatever the height. -/
def containing (p : Vec3) : Cell :=
  ⟨Binary32.nearestInt32 p.x, Binary32.nearestInt32 p.z⟩

def center (c : Cell) (y : Float32) : Vec3 :=
  ⟨Binary32.ofInt c.x.toInt, y, Binary32.ofInt c.z.toInt⟩

instance : LE Cell where
  le a b := a.x ≤ b.x ∧ a.z ≤ b.z

instance (a b : Cell) : Decidable (a ≤ b) :=
  inferInstanceAs (Decidable (a.x ≤ b.x ∧ a.z ≤ b.z))

def lower (a b : Cell) : Cell := ⟨min a.x b.x, min a.z b.z⟩

def upper (a b : Cell) : Cell := ⟨max a.x b.x, max a.z b.z⟩

theorem containing_eq_of_flat_eq {p q : Vec3} (hx : p.x = q.x) (hz : p.z = q.z) :
    containing p = containing q := by
  simp [containing, hx, hz]

end Cell
end Tilewalk
