/-! The causes for which the simulation cannot go on. A cause is a fact about the numbers at hand, and
nothing is changed when one arises. -/

set_option autoImplicit false

namespace Tilewalk

inductive Fault where
  /-- The speed limit is not a number, so no speed can be kept below it. -/
  | speedLimit
  /-- The player left the floor at a speed for which there is no range of spins. -/
  | spinRange
deriving DecidableEq

end Tilewalk
