import Tilewalk.Board
import Tilewalk.Event

/-! Notices for the log: things that went otherwise than the stage's author may have meant. Each is a
function of what happened, so the simulation itself carries no log. -/

set_option autoImplicit false

namespace Tilewalk

inductive TileFamily where
  | gem
  | gate
deriving DecidableEq

def TileFamily.word : TileFamily → String
  | .gem => "variable"
  | .gate => "conditional"

inductive Notice where
  | divisionByZero (register : Register)
  | noDestination (tile : TileId) (group : UInt8)
  | unknownTile (tile : TileId)
  /-- A map code has no entry of its family, and defaults were used. -/
  | missingEntry (stage : String) (family : TileFamily) (code : Int32)
  | teleportConflict (conflict : TeleportConflict)
deriving DecidableEq

namespace Notice

def isError : Notice → Bool
  | teleportConflict _ => true
  | _ => false

def text : Notice → String
  | divisionByZero r => r.name ++ " / 0 skipped: division by zero"
  | noDestination tile group =>
    "teleport tile " ++ toString tile ++ ": group " ++ toString group.toNat ++ " has no destination"
  | unknownTile tile => "dispatch on unknown tile " ++ toString tile
  | missingEntry stage family code =>
    "stage '" ++ stage ++ "': no [[" ++ family.word ++ "]] for code " ++ toString code.toInt
      ++ ", using defaults"
  | teleportConflict c => c.message

def ofOperation? (r : Register) (o : Operation) (n : Int32) : Option Notice :=
  if o = .divide ∧ n = 0 then some (divisionByZero r) else none

def ofEvent? (b : Board) : Event → Option Notice
  | .gemHidden tile =>
    match b.tile? tile with
    | some ⟨.gem r o n, _, _, _⟩ => ofOperation? r o n
    | _ => none
  | .teleportFailed tile group => some (noDestination tile group)
  | _ => none

def ofEvents (b : Board) (events : List Event) : List Notice :=
  events.filterMap (ofEvent? b)

end Notice
end Tilewalk
