import Tilewalk.Board
import Tilewalk.Body
import Tilewalk.Notice
import Tilewalk.Stage.File

/-! Stages: the board that a stage file describes, and where the player appears on it. The file is
checked for its shape before the board is built, and the first fault found is the one told. -/

set_option autoImplicit false

namespace Tilewalk

/-- The words of others for what went wrong: what the reader of documents says of a text that it refuses,
and what the system says of a path that it does not read. -/
structure Wording where
  refused : String → String
  unread : String → String

inductive StageError where
  | unreadable (path : String)
  | invalid (text : String) (cause : Toml.Error)
  | empty (name : String)
  | raggedMap (row found expected : Nat)
  | editableShape
  | missingStart (name : String)
deriving DecidableEq

namespace StageError

def message (wording : Wording) : StageError → String
  | unreadable path => "could not read " ++ path ++ ": " ++ wording.unread path
  | invalid text _ => "invalid stage file: " ++ wording.refused text
  | empty name => "stage '" ++ name ++ "' has an empty map"
  | raggedMap row found expected =>
    "map row " ++ toString row ++ " has " ++ toString found ++ " columns, expected "
      ++ toString expected
  | editableShape => "editable map does not match the map's shape"
  | missingStart name => "stage '" ++ name ++ "' has no start tile"

end StageError

structure Stage where
  name : String
  description : String
  board : Board
  spawn : Pose

namespace StageFile

def width? (f : StageFile) : Option Nat :=
  match f.map with
  | row :: _ => if row.isEmpty then none else some row.length
  | [] => none

def raggedRow? (f : StageFile) (width : Nat) : Option (Nat × Nat) :=
  (f.map.zipIdx.find? fun (row, _) => row.length != width).map fun (row, y) => (y, row.length)

def editableFits (f : StageFile) (width : Nat) : Bool :=
  f.editable.isEmpty ||
    (f.editable.length == f.map.length && f.editable.all fun row => row.length == width)

def checkShape (f : StageFile) : Except StageError Unit :=
  match f.width? with
  | none => .error (.empty f.name)
  | some width =>
    match f.raggedRow? width with
    | some (row, found) => .error (.raggedMap row found width)
    | none => if f.editableFits width then .ok () else .error .editableShape

/-- The gem of a code: as configured by the first entry for it, or the default. -/
def gemOf (f : StageFile) (code : Int32) : TileKind :=
  match f.gems.find? fun e => e.code = code with
  | some e => .gem e.register e.operation e.value
  | none => .gem .ruby .add 0

def gateOf (f : StageFile) (code : Int32) : TileKind :=
  match f.gates.find? fun e => e.code = code with
  | some e => .gate e.register e.comparator e.value
  | none => .gate .ruby .less 0

def kindOf (f : StageFile) (code : Int32) : Option TileKind :=
  if code = 2 then some .start
  else if code = 3 then some .goal
  else if 4 ≤ code ∧ code ≤ 7 then (Direction.ofIndex? (code - 4)).map .arrow
  else if 10 ≤ code ∧ code ≤ 19 then
    some (.teleport (UInt8.ofNat (code - 10).toInt.toNat) .destination)
  else if 90 ≤ code ∧ code ≤ 99 then
    some (.teleport (UInt8.ofNat (code - 90).toInt.toNat) .source)
  else if 20 ≤ code ∧ code ≤ 29 then some (f.gemOf code)
  else if 30 ≤ code ∧ code ≤ 39 then some (f.gateOf code)
  else none

def missingEntry? (f : StageFile) (code : Int32) : Option Notice :=
  if 20 ≤ code ∧ code ≤ 29 ∧ f.gems.all (fun e => e.code ≠ code) then
    some (.missingEntry f.name .gem code)
  else if 30 ≤ code ∧ code ≤ 39 ∧ f.gates.all (fun e => e.code ≠ code) then
    some (.missingEntry f.name .gate code)
  else none

/-- The cell of the entry in a row and a column: the first row is the far edge of the board. -/
def cellOf (row column : Nat) : Cell :=
  ⟨Int32.ofNat column, -Int32.ofNat row⟩

def editRuleOf (f : StageFile) (row column : Nat) (kind : TileKind) : EditRule :=
  match f.editable[row]?.bind (·[column]?) with
  | some code => .ofCode code kind
  | none => .locked

def tileOf (f : StageFile) (row column : Nat) (code : Int32) : Option Tile :=
  (f.kindOf code).map fun kind =>
    { Tile.place kind ((cellOf row column).center 0 * tileSize) with
      edit := f.editRuleOf row column kind }

def entries (f : StageFile) : List (Nat × Nat × Int32) :=
  f.map.zipIdx.flatMap fun (codes, row) =>
    codes.zipIdx.map fun (code, column) => (row, column, code)

def place (f : StageFile) (b : Board) : Nat × Nat × Int32 → Board
  | (row, column, code) =>
    match f.tileOf row column code with
    | some tile => b.addTile tile
    | none => if code = 0 then b else b.addFloor (cellOf row column)

def placeNotices (f : StageFile) (b : Board) : Nat × Nat × Int32 → List Notice
  | (row, column, code) =>
    (f.missingEntry? code).toList ++
      ((f.tileOf row column code).bind b.conflict?).toList.map .teleportConflict

def board (f : StageFile) : Board :=
  f.entries.foldl f.place (.empty f.name)

def notices (f : StageFile) : List Notice :=
  (f.entries.foldl (fun (b, told) entry => (f.place b entry, told ++ f.placeNotices b entry))
    (Board.empty f.name, [])).2

/-- Where the player appears: half a unit above the first start tile. -/
def spawn? (f : StageFile) (b : Board) : Except StageError Pose :=
  match b.startTile?.bind b.tile? with
  | some tile => .ok ⟨tile.position + Vec3.up * (tileSize * 0.5), .identity⟩
  | none => .error (.missingStart f.name)

def build (f : StageFile) : Except StageError Stage := do
  f.checkShape
  let board := f.board
  let spawn ← f.spawn? board
  return { name := f.name, description := f.description, board, spawn }

end StageFile

namespace Stage

def parse (text : String) : Except StageError (Stage × List Notice) :=
  match StageFile.parse text with
  | .error cause => .error (.invalid text cause)
  | .ok file => do
    let stage ← file.build
    return (stage, file.notices)

end Stage
end Tilewalk
