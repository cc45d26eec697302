import Tilewalk.Number.Binary64
import Tilewalk.Tile.Kind

/-! Timers that bring hidden gems back. A tile has at most one timer: starting it again replaces the
one that is pending. -/

set_option autoImplicit false

namespace Tilewalk

structure Timer where
  due : Float
  tile : TileId
deriving DecidableEq

/-- The pending timers in the order of their start. -/
structure Timers where
  pending : List Timer
deriving DecidableEq

namespace Timers

def none : Timers := ⟨[]⟩

def cancel (t : Timers) (tile : TileId) : Bool × Timers :=
  let kept := t.pending.filter (·.tile != tile)
  (kept.length != t.pending.length, ⟨kept⟩)

/-- Start the timer of a tile, and say whether it replaces one. An infinite delay never ends. -/
def start (t : Timers) (now : Float) (delay : Float32) (tile : TileId) : Bool × Timers :=
  let (replaced, kept) := t.cancel tile
  (replaced, ⟨kept.pending ++ [⟨now + Binary64.widen delay, tile⟩]⟩)

def isDue (now : Float) (timer : Timer) : Bool :=
  decide (timer.due ≤ now)

def noLater (a b : Timer) : Bool :=
  decide (Binary64.orderKey a.due ≤ Binary64.orderKey b.due)

/-- Take the timers that have come due, earliest first and equal ones in the order of their start. -/
def takeDue (t : Timers) (now : Float) : List TileId × Timers :=
  (((t.pending.filter (isDue now)).mergeSort noLater).map (·.tile),
    ⟨t.pending.filter (fun timer => !isDue now timer)⟩)

def takeAll (t : Timers) : List TileId × Timers :=
  (t.pending.map (·.tile), none)

def size (t : Timers) : Nat := t.pending.length

end Timers
end Tilewalk
