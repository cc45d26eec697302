import Tilewalk.Authoring
import Tilewalk.World.Step

/-! The operations on a world as data, and runs of them. A run ends at the first fault, and a refused
edit is an operation without events. -/

set_option autoImplicit false

namespace Tilewalk

inductive Command where
  | step
  | changePhase (target : Phase)
  | edit (tile : TileId) (edit : Edit)
  | changeSpeed (delta : Float32)
  | setSpeed (speed : Float32)
deriving DecidableEq

namespace World

def withPlayer (w : World) (f : Player → Player) : World :=
  { w with player := f w.player }

def perform (w : World) : Command → Except Fault (List Event × World)
  | .step => w.step
  | .changePhase target => .ok (w.changePhase target)
  | .edit tile e =>
    match w.edit tile e with
    | .ok (event, w) => .ok ([event], w)
    | .error _ => .ok ([], w)
  | .changeSpeed delta => .ok ([], w.withPlayer (·.changeSpeed delta))
  | .setSpeed speed => .ok ([], w.withPlayer (·.setSpeed speed))

def run (w : World) : List Command → Except Fault (List (List Event) × World)
  | [] => .ok ([], w)
  | c :: rest => do
    let (events, w) ← w.perform c
    let (later, w) ← w.run rest
    return (events :: later, w)

/-- The worlds that operations lead to from a newly opened one. -/
inductive Reachable : World → Prop where
  | opened {board : Board} {spawn : Pose} {config : SimConfig} {words : WordSource} {w : World} :
    World.opened board spawn config words = .ok w → Reachable w
  | perform {w w' : World} {c : Command} {events : List Event} :
    Reachable w → w.perform c = .ok (events, w') → Reachable w'

end World
end Tilewalk
