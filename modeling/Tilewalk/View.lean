import Tilewalk.World.Basic

/-! What the screen shows besides the world: the author's cursor, a message for a while, and the gems
that are hidden. It follows the world's events, and the world knows nothing of it. -/

set_option autoImplicit false

namespace Tilewalk

structure View where
  cursor : Cell
  stageIndex : Nat
  stageCount : Nat
  message : String
  /-- Frames for which the message still stays. -/
  messageFrames : Nat
  hidden : List TileId
  frames : UInt64
deriving DecidableEq

namespace View

def messageTime : Nat := 150

def opened (cursor : Cell) (stageIndex stageCount : Nat) : View :=
  ⟨cursor, stageIndex, stageCount, "", 0, [], 0⟩

def setMessage (v : View) (text : String) : View :=
  { v with message := text, messageFrames := messageTime }

def gemVisible (v : View) (tile : TileId) : Bool := !v.hidden.contains tile

def hideGem (v : View) (tile : TileId) : View :=
  if v.hidden.contains tile then v else { v with hidden := tile :: v.hidden }

def showGem (v : View) (tile : TileId) : View :=
  { v with hidden := v.hidden.filter (· != tile) }

def hiddenGems (v : View) : List TileId := v.hidden.mergeSort

def tick (v : View) : View :=
  let v := { v with frames := v.frames + 1 }
  match v.messageFrames with
  | 0 => v
  | 1 => { v with message := "", messageFrames := 0 }
  | n + 2 => { v with messageFrames := n + 1 }

def editMessage (kind : TileKind) : String :=
  kind.label ++ " tile: " ++ kind.shortGlyph

def follow (board : Board) (v : View) : Event → View
  | .phaseChanged .running => v.setMessage "Running"
  | .phaseChanged .editing => v.setMessage "Editing"
  | .gemHidden tile => v.hideGem tile
  | .gemRestored tile => v.showGem tile
  | .teleportFailed _ group =>
    v.setMessage ("Teleport " ++ toString group.toNat ++ " has no exit")
  | .fallStarted => v.setMessage "Fell off the board. Space to edit"
  | .levelComplete => v.setMessage "Goal! n: next stage"
  | .tileEdited tile =>
    match board.tile? tile with
    | some t => v.setMessage (editMessage t.kind)
    | none => v
  | .variableChanged .. | .directionChanged .. | .effectSkipped _ | .conditionEvaluated ..
  | .teleported .. => v

def apply (v : View) (events : List Event) (board : Board) : View :=
  events.foldl (follow board) v

def clampCoordinate (n lo hi : Int32) : Int32 :=
  if n < lo then lo else if hi < n then hi else n

def moveCursor (v : View) (dx dz : Int32) (board : Board) : View :=
  match board.cells.bounds with
  | none => v
  | some (lo, hi) =>
    { v with cursor :=
        ⟨clampCoordinate (v.cursor.x + dx) lo.x hi.x,
         clampCoordinate (v.cursor.z + dz) lo.z hi.z⟩ }

def selected? (v : View) (board : Board) : Option TileId :=
  board.tileAt? v.cursor

end View
end Tilewalk
