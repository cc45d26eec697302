import Tilewalk.Number.OneDecimal
import Tilewalk.Screen.Raster
import Tilewalk.View

/-! The picture of a world: a title row, the board seen from above, a panel beside it and a row of
help. Each part is written over what was drawn before it and is cut off at the frame's edges. -/

set_option autoImplicit false

namespace Tilewalk.Screen

def titleColor : Color := .rgb 20 20 60
def floorColor : Color := .rgb 45 45 60
def cursorColor : Color := .rgb 90 80 20
def messageColor : Color := .rgb 200 180 50

def cellWidth : Nat := 3

/-- The row of the board's far edge, and of the panel's first line. -/
def boardRow : Nat := 2

def boardColumn : Nat := 1

def panelGap : Nat := 3

def padLeft (width : Nat) (text : String) : String :=
  String.ofList (List.replicate (width - text.length) ' ') ++ text

def padRight (width : Nat) (text : String) : String :=
  text ++ String.ofList (List.replicate (width - text.length) ' ')

def registerColor : Register → Color
  | .ruby => .red
  | .sapphire => .blue
  | .emerald => .green

def kindColor : TileKind → Color
  | .floor => .darkGrey
  | .start => .cyan
  | .goal => .green
  | .arrow _ => .white
  | .gem r _ _ => registerColor r
  | .gate .. => .magenta
  | .teleport .. => .blue

def phaseTitle : Phase → String
  | .editing => "EDITING"
  | .running => "RUNNING"

def title (w : World) (v : View) : String :=
  " " ++ w.board.name ++ "  [" ++ toString (v.stageIndex + 1) ++ "/" ++ toString v.stageCount
    ++ "]  " ++ phaseTitle w.phase ++ " "

def drawTitle (w : World) (v : View) (f : Frame) : Frame :=
  let f := f.write 0 0 .white titleColor (List.replicate f.width ' ')
  f.write 0 0 .white titleColor (title w v).toList

/-- Whether what can be edited shows in white at the moment. -/
def blinkOn (v : View) : Bool := v.frames / 10 % 2 == 0

def playerVisible (w : World) : Bool := decide (-1 < w.player.position.y)

/-- The colour of a tile's label: a hidden gem is dark, and while authoring an editable tile
blinks. -/
def tileColor (w : World) (v : View) (id : TileId) (t : Tile) : Color :=
  if t.edit.isEditable ∧ w.phase = .editing ∧ blinkOn v then .white
  else
    match t.kind with
    | .gem .. => if v.gemVisible id then kindColor t.kind else .darkGrey
    | kind => kindColor kind

def cellLabel (w : World) (v : View) (c : Cell) : String × Color × Color :=
  match (w.board.tileAt? c).bind fun id => (w.board.tile? id).map fun t => (id, t) with
  | some (id, t) => (t.glyph, tileColor w v id t, floorColor)
  | none =>
    if c ∈ w.board.cells then (" . ", .darkGrey, floorColor) else ("   ", .white, .base)

def playerGlyph (w : World) : Char := if w.player.isFalling then 'x' else '@'

/-- Draw a cell of the board at a place of the frame, with the cursor under it and the player on it. -/
def drawCell (w : World) (v : View) (f : Frame) (x y : Nat) (c : Cell) : Frame :=
  let (label, fg, bg) := cellLabel w v c
  let bg := if c = v.cursor ∧ w.phase = .editing then cursorColor else bg
  let f := f.write x y fg bg label.toList
  if playerVisible w ∧ c = Cell.containing w.player.position then
    f.set (x + 1) y ⟨playerGlyph w, .yellow, bg⟩
  else f

def extent (lo hi : Cell) : Nat × Nat :=
  ((hi.x.toInt - lo.x.toInt + 1).toNat, (hi.z.toInt - lo.z.toInt + 1).toNat)

/-- The cells of the box between two cells with their columns and rows, the far edge first. -/
def boxCells (lo hi : Cell) : List (Nat × Nat × Cell) :=
  let (columns, rows) := extent lo hi
  (List.range rows).flatMap fun row => (List.range columns).map fun column =>
    (column, row, ⟨lo.x + Int32.ofNat column, hi.z - Int32.ofNat row⟩)

def drawBoard (w : World) (v : View) (f : Frame) : Frame :=
  match w.board.cells.bounds with
  | none => f
  | some (lo, hi) =>
    (boxCells lo hi).foldl (fun f (column, row, c) =>
      drawCell w v f (boardColumn + column * cellWidth) (boardRow + row) c) f

def boardWidth (b : Board) : Nat :=
  match b.cells.bounds with
  | none => 0
  | some (lo, hi) => (extent lo hi).1 * cellWidth

def ruleText : EditRule → String
  | .locked => "locked"
  | .arrow none => "any direction"
  | .arrow (some d) => "any direction but " ++ d.name
  | .fields r o v =>
    let fields := [(r, "register"), (o, "op"), (v, "value")]
    "edit: " ++ String.intercalate ", " ((fields.filter (·.1)).map (·.2))

structure Line where
  text : String
  fg : Color
  bg : Color

def Line.plain (text : String) (fg : Color) : Line := ⟨text, fg, .base⟩

def registerLine (s : Registers) (r : Register) : Line :=
  .plain (padRight 9 r.name ++ " " ++ padLeft 6 (toString (s.get r).toInt)) (registerColor r)

def speedLine (p : Player) : Line :=
  .plain ("speed     " ++ padLeft 6 (OneDecimal.text p.speed)) .white

def selectionLines (w : World) (v : View) : List Line :=
  match (v.selected? w.board).bind w.board.tile? with
  | some t =>
    [.plain (t.kind.label ++ " [" ++ t.kind.shortGlyph ++ "]") (kindColor t.kind),
      .plain (ruleText t.edit) .grey]
  | none => [.plain "no tile selected" .darkGrey]

def messageLines (v : View) : List Line :=
  if v.message.isEmpty then [] else [⟨" " ++ v.message ++ " ", .black, messageColor⟩]

def panelLines (w : World) (v : View) : List Line :=
  Register.all.map (registerLine w.registers)
    ++ [.plain "" .white, speedLine w.player]
    ++ (if w.player.skipArmed then [.plain "skip next tile" .red] else [])
    ++ [.plain "" .white]
    ++ selectionLines w v
    ++ [.plain "" .white]
    ++ messageLines v

def drawPanel (w : World) (v : View) (column : Nat) (f : Frame) : Frame :=
  (panelLines w v).zipIdx.foldl (fun f (line, i) =>
    f.write column (boardRow + i) line.fg line.bg line.text.toList) f

def helpText : String :=
  " Space:run/edit  Arrows:cursor  Enter:turn  [ ]:register  , .:op  - +:value  f/s:speed  n/p:stage  q:quit"

def drawHelp (f : Frame) : Frame :=
  match f.height with
  | 0 => f
  | last + 1 => f.write 0 last .darkGrey .base helpText.toList

def draw (w : World) (v : View) (f : Frame) : Frame :=
  drawHelp <|
    drawPanel w v (boardColumn + boardWidth w.board + panelGap) <|
    drawBoard w v <|
    drawTitle w v f

def compose (w : World) (v : View) (width height : Nat) : Frame :=
  draw w v (.fill width height .blank)

end Tilewalk.Screen
