import Tilewalk.World.Basic

/-! Authoring: the only way in which tiles change. An edit needs the authoring phase and a rule that
opens the part it touches; one that is refused names the first cause and changes nothing. -/

set_option autoImplicit false

namespace Tilewalk

inductive Edit where
  | setDirection (direction : Direction)
  /-- Turn an arrow clockwise, past the forbidden heading. -/
  | rotate
  | setGemRegister (register : Register)
  | setGemOperation (operation : Operation)
  | setGemValue (value : Int32)
  | setGateRegister (register : Register)
  | setGateComparator (comparator : Comparator)
  | setGateValue (value : Int32)
  | cycleRegister (step : Int)
  /-- Step through the operations of a gem tile or the comparators of a gate tile. -/
  | cycleOperation (step : Int)
  /-- Add to the value of a gem or gate tile, stopping at the ends of its range. -/
  | adjustValue (step : Int)
deriving DecidableEq

inductive EditError where
  | notEditing
  | noSuchTile (tile : TileId)
  | locked (tile : TileId)
  | wrongKind (tile : TileId) (label : String)
  | forbiddenDirection (tile : TileId) (direction : Direction)
deriving DecidableEq

namespace EditError

def message : EditError → String
  | notEditing => "tiles can only be changed while editing"
  | noSuchTile tile => "no tile with id " ++ toString tile
  | locked tile => "tile " ++ toString tile ++ " does not allow this change"
  | wrongKind tile label => "tile " ++ toString tile ++ " is a " ++ label ++ " tile"
  | forbiddenDirection tile d => "tile " ++ toString tile ++ " may not point " ++ d.name

end EditError

namespace Edit

def field : Edit → Field
  | setDirection _ | rotate => .direction
  | setGemRegister _ | setGateRegister _ | cycleRegister _ => .register
  | setGemOperation _ | setGateComparator _ | cycleOperation _ => .operation
  | setGemValue _ | setGateValue _ | adjustValue _ => .value

/-- The next heading clockwise that is not forbidden. -/
def nextAllowed (forbidden : Option Direction) (d : Direction) : Direction :=
  if forbidden = some d.clockwise then d.clockwise.clockwise else d.clockwise

def saturatingAdd (v : Int32) (step : Int) : Int32 :=
  Int32.ofIntClamp (v.toInt + step)

/-- The kind of a gem or gate tile after the edit, when the edit is one for its kind. -/
def change? (e : Edit) (kind : TileKind) : Option TileKind :=
  match e, kind with
  | setGemRegister r, .gem _ o n => some (.gem r o n)
  | setGemOperation o, .gem r _ n => some (.gem r o n)
  | setGemValue n, .gem r o _ => some (.gem r o n)
  | setGateRegister r, .gate _ c n => some (.gate r c n)
  | setGateComparator c, .gate r _ n => some (.gate r c n)
  | setGateValue n, .gate r c _ => some (.gate r c n)
  | cycleRegister step, .gem r o n => some (.gem (r.cycled step) o n)
  | cycleRegister step, .gate r c n => some (.gate (r.cycled step) c n)
  | cycleOperation step, .gem r o n => some (.gem r (o.cycled step) n)
  | cycleOperation step, .gate r c n => some (.gate r (c.cycled step) n)
  | adjustValue step, .gem r o n => some (.gem r o (saturatingAdd n step))
  | adjustValue step, .gate r c n => some (.gate r c (saturatingAdd n step))
  | _, _ => none

end Edit

namespace World

def editable (w : World) (id : TileId) : Except EditError Tile :=
  match w.phase, w.board.tile? id with
  | .running, _ => .error .notEditing
  | .editing, none => .error (.noSuchTile id)
  | .editing, some t => .ok t

def giveKind (w : World) (id : TileId) (kind : TileKind) : Event × World :=
  (.tileEdited id, { w with board := w.board.setKind id kind })

def setDirection (w : World) (id : TileId) (d : Direction) : Except EditError (Event × World) := do
  let t ← w.editable id
  match t.kind, t.edit with
  | .arrow _, .arrow forbidden =>
    if forbidden = some d then .error (.forbiddenDirection id d) else .ok (w.giveKind id (.arrow d))
  | .arrow _, _ => .error (.locked id)
  | kind, _ => .error (.wrongKind id kind.label)

def rotate (w : World) (id : TileId) : Except EditError (Event × World) := do
  let t ← w.editable id
  match t.kind, t.edit with
  | .arrow d, .arrow forbidden => w.setDirection id (Edit.nextAllowed forbidden d)
  | .arrow _, _ => .error (.locked id)
  | kind, _ => .error (.wrongKind id kind.label)

def editField (w : World) (id : TileId) (e : Edit) : Except EditError (Event × World) := do
  let t ← w.editable id
  match e.change? t.kind with
  | none => .error (.wrongKind id t.kind.label)
  | some kind =>
    if t.edit.opens e.field then .ok (w.giveKind id kind) else .error (.locked id)

def edit (w : World) (id : TileId) : Edit → Except EditError (Event × World)
  | .setDirection d => w.setDirection id d
  | .rotate => w.rotate id
  | e => w.editField id e

end World
end Tilewalk
