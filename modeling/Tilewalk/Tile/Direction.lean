import Tilewalk.Space.Vec3

/-! The four headings of the board. -/

set_option autoImplicit false

namespace Tilewalk

inductive Direction where
  | up
  | right
  | down
  | left
deriving DecidableEq

namespace Direction

/-- The unit vector of the heading; up is towards positive z. -/
def vector : Direction → Vec3
  | up => ⟨0, 0, 1⟩
  | right => ⟨1, 0, 0⟩
  | down => ⟨0, 0, -1⟩
  | left => ⟨-1, 0, 0⟩

def clockwise : Direction → Direction
  | up => right
  | right => down
  | down => left
  | left => up

def glyph : Direction → Char
  | up => '^'
  | right => '>'
  | down => 'v'
  | left => '<'

def name : Direction → String
  | up => "Up"
  | right => "Right"
  | down => "Down"
  | left => "Left"

/-- The heading with a number from 0 to 3, counted clockwise from up. -/
def ofIndex? (i : Int32) : Option Direction :=
  if i = 0 then some up
  else if i = 1 then some right
  else if i = 2 then some down
  else if i = 3 then some left
  else none

theorem clockwise_ne (d : Direction) : d.clockwise ≠ d := by
  cases d <;> decide

end Direction
end Tilewalk
