import Tilewalk.Proofs.Grid.Bounds
import Tilewalk.Proofs.Screen.Glyphs
import Tilewalk.Proofs.Screen.Printing

/-! The board's part of a picture. Each cell of the box around the floor has three columns in a row of
the frame to itself, and nothing else is drawn there but the help in the last row. So the picture shows
what is on the cell, however the frame cuts the board off. -/

set_option autoImplicit false

namespace Tilewalk.Screen

/-- What stands for a cell on the map: the glyph of its tile, or a mark for bare floor. -/
inductive Legend (b : Board) (c : Cell) : String → Prop where
  | tile {id : TileId} {t : Tile} : b.tileAt? c = some id → b.tile? id = some t → Legend b c t.glyph
  | floor : b.tileAt? c = none → c ∈ b.cells → Legend b c " . "
  | void : b.tileAt? c = none → c ∉ b.cells → Legend b c "   "

variable {b : Board} {c : Cell} {text : String}

theorem exists_tile_of_tileAt? {id : TileId} (found : b.tileAt? c = some id) :
    ∃ t, b.tile? id = some t := by
  obtain ⟨bound, -⟩ := List.findIdx?_eq_some_iff_getElem.mp found
  exact ⟨b.tiles[id], List.getElem?_eq_getElem bound⟩

theorem Legend.fillsCell (legend : Legend b c text) (narrow : b.Narrow) : FillsCell text := by
  cases legend with
  | @tile id t _ found =>
    refine t.kind.fillsCell_glyph fun group role same => narrow id group role ?_
    rw [Board.kind?, found, Option.map_some, same]
  | floor => exact ⟨' ', '.', ' ', rfl, by decide, by decide⟩
  | void => exact ⟨' ', ' ', ' ', rfl, by decide, by decide⟩

variable (w : World) (v : View)

theorem legend_cellLabel (c : Cell) : Legend w.board c (cellLabel w v c).1 := by
  cases found : w.board.tileAt? c with
  | none =>
    by_cases floor : c ∈ w.board.cells
    · have label : (cellLabel w v c).1 = " . " := by simp [cellLabel, found, floor]
      exact label ▸ .floor found floor
    · have label : (cellLabel w v c).1 = "   " := by simp [cellLabel, found, floor]
      exact label ▸ .void found floor
  | some id =>
    obtain ⟨t, there⟩ := exists_tile_of_tileAt? found
    have label : (cellLabel w v c).1 = t.glyph := by simp [cellLabel, found, there]
    exact label ▸ .tile found there

/-! ## A cell -/

def char? (f : Frame) (x y : Nat) : Option Char := (f.get? x y).map (·.char)

theorem char?_write (f : Frame) {x y k : Nat} (fg bg : Color) {text : List Char}
    (within : k < text.length) (inside : x + k < f.width ∧ y < f.height) :
    char? (f.write x y fg bg text) (x + k) y = text[k]? := by
  have split : text = text.take k ++ text[k] :: text.drop (k + 1) := by simp
  have before : (text.take k).length = k := List.length_take_of_le (Nat.le_of_lt within)
  have shown := f.get?_write_append fg bg (text.take k) text[k] (text.drop (k + 1))
    (x := x) (y := y) (by rwa [before])
  rw [← split, before] at shown
  rw [char?, shown, List.getElem?_eq_getElem within]
  rfl

def Stands (c : Cell) : Prop := -1 < w.player.position.y ∧ Cell.containing w.player.position = c

instance (c : Cell) : Decidable (Stands w c) := inferInstanceAs (Decidable (_ ∧ _))

/-- The characters of a cell, of which the middle one gives way to the player. -/
def cellChars (c : Cell) : List Char :=
  if Stands w c then (cellLabel w v c).1.toList.set 1 (playerGlyph w)
  else (cellLabel w v c).1.toList

def labelled (f : Frame) (x y : Nat) (c : Cell) : Frame :=
  f.write x y (cellLabel w v c).2.1 (cellBackground w v c) (cellLabel w v c).1.toList

theorem drawCell_eq (f : Frame) (x y : Nat) (c : Cell) :
    drawCell w v f x y c = if Stands w c then
      (labelled w v f x y c).set (x + 1) y ⟨playerGlyph w, .yellow, cellBackground w v c⟩
    else labelled w v f x y c := by
  have visible : (playerVisible w ∧ c = Cell.containing w.player.position) ↔ Stands w c :=
    and_congr decide_eq_true_iff eq_comm
  simp only [← visible]
  rfl

theorem size_drawCell (f : Frame) (x y : Nat) (c : Cell) :
    (drawCell w v f x y c).width = f.width ∧ (drawCell w v f x y c).height = f.height :=
  ⟨(drawsOver_cell w v f x y c).width, (drawsOver_cell w v f x y c).height⟩

theorem char?_drawCell (f : Frame) {x y k : Nat} {c : Cell}
    (within : k < (cellLabel w v c).1.toList.length) (inside : x + k < f.width ∧ y < f.height) :
    char? (drawCell w v f x y c) (x + k) y = (cellChars w v c)[k]? := by
  have shown : char? (labelled w v f x y c) (x + k) y = (cellLabel w v c).1.toList[k]? :=
    char?_write f _ _ within inside
  have size : DrawsOver (fun _ _ => True) f (labelled w v f x y c) :=
    .write f x y _ _ fun _ _ => trivial
  rw [drawCell_eq, cellChars]
  split
  · rw [char?, Raster.get?_set, size.width, size.height]
    -- The player is drawn over the middle character and over no other.
    by_cases middle : 1 = k
    · subst middle
      rw [if_pos ⟨rfl, inside⟩, List.getElem?_set_self within]
      rfl
    · have other : (x + k, y) ≠ (x + 1, y) := fun same =>
        middle (Nat.add_left_cancel (Prod.mk.inj same).1).symm
      rw [if_neg fun both => other both.1, List.getElem?_set_ne middle]
      exact shown
  · exact shown

section
variable (narrow : w.board.Narrow)
include narrow

theorem length_cellLabel (c : Cell) : (cellLabel w v c).1.toList.length = cellWidth := by
  obtain ⟨_, _, _, text, -⟩ := (legend_cellLabel w v c).fillsCell narrow
  rw [text]
  rfl

theorem char?_drawCell_of_aside (f : Frame) {x y i j : Nat} (c : Cell)
    (aside : j = y → i < x ∨ x + cellWidth ≤ i) :
    char? (drawCell w v f x y c) i j = char? f i j := by
  have kept : (labelled w v f x y c).get? i j = f.get? i j :=
    f.get?_write_of_aside _ _ fun row => length_cellLabel w v narrow c ▸ aside row
  rw [drawCell_eq, char?, char?]
  split
  · have other : (i, j) ≠ (x + 1, y) := fun same => by
      obtain ⟨rfl, rfl⟩ := Prod.mk.inj same
      have wide : 1 < cellWidth := by decide
      rcases aside rfl with before | behind <;> omega
    rw [Raster.get?_set, if_neg fun both => other both.1, kept]
  · rw [kept]

/-- Cells are drawn side by side: a place of the board shows its own cell whatever the order. -/
theorem char?_drawCells {items : List (Nat × Nat × Cell)} (f : Frame) {column row k : Nat}
    {c : Cell} (within : k < cellWidth)
    (inside : boardColumn + column * cellWidth + k < f.width ∧ boardRow + row < f.height)
    (alone : ∀ d, (column, row, d) ∈ items → d = c)
    (drawn : (column, row, c) ∈ items ∨
      char? f (boardColumn + column * cellWidth + k) (boardRow + row) = (cellChars w v c)[k]?) :
    char? (items.foldl (fun f (column, row, c) =>
        drawCell w v f (boardColumn + column * cellWidth) (boardRow + row) c) f)
      (boardColumn + column * cellWidth + k) (boardRow + row) = (cellChars w v c)[k]? := by
  -- What is drawn already stays: a later cell has another place.
  induction items generalizing f with
  | nil => exact drawn.resolve_left List.not_mem_nil
  | cons item rest ih =>
    obtain ⟨a, b, d⟩ := item
    obtain ⟨width, height⟩ := size_drawCell w v f (boardColumn + a * cellWidth) (boardRow + b) d
    refine ih _ (by rwa [width, height]) (fun d later => alone d (.tail _ later)) ?_
    by_cases here : a = column ∧ b = row
    · obtain ⟨rfl, rfl⟩ := here
      obtain rfl := alone d List.mem_cons_self
      exact .inr (char?_drawCell w v f (by rwa [length_cellLabel w v narrow]) inside)
    · rcases drawn with member | shown
      · rcases List.mem_cons.mp member with same | later
        · exact absurd ⟨(congrArg (·.1) same).symm, (congrArg (·.2.1) same).symm⟩ here
        · exact .inl later
      · refine .inr ((char?_drawCell_of_aside w v narrow f d fun same => ?_).trans shown)
        simp only [cellWidth] at within ⊢
        omega

end

/-! ## The board -/

@[simp] theorem mem_boxCells {lo hi c : Cell} {column row : Nat} :
    (column, row, c) ∈ boxCells lo hi ↔ column < (extent lo hi).1 ∧ row < (extent lo hi).2 ∧
      c = ⟨lo.x + Int32.ofNat column, hi.z - Int32.ofNat row⟩ := by
  simp only [boxCells, List.mem_flatMap, List.mem_map, List.mem_range, Prod.mk.injEq]
  constructor
  · rintro ⟨_, below, _, left, rfl, rfl, rfl⟩
    exact ⟨left, below, rfl⟩
  · rintro ⟨left, below, rfl⟩
    exact ⟨row, below, column, left, rfl, rfl, rfl⟩

/-- A cell of a box lies at this column and row of it, counted from the left and from the far edge. -/
structure LiesAt (lo hi c : Cell) (column row : Nat) : Prop where
  column : (column : Int) = c.x.toInt - lo.x.toInt
  row : (row : Int) = hi.z.toInt - c.z.toInt

theorem LiesAt.mem_boxCells {lo hi c : Cell} {column row : Nat} (lies : LiesAt lo hi c column row)
    (above : lo ≤ c) (below : c ≤ hi) : (column, row, c) ∈ boxCells lo hi := by
  have inColumn := lies.column
  have inRow := lies.row
  -- The coordinates are computed in words, and they come out right because the cell has words for its own.
  have x : c.x = lo.x + Int32.ofNat column := calc
    c.x = Int32.ofInt c.x.toInt := c.x.ofInt_toInt.symm
    _ = Int32.ofInt (lo.x.toInt + column) := congrArg _ (by omega)
    _ = lo.x + Int32.ofNat column := by
      rw [Int32.ofInt_add, Int32.ofInt_toInt, Int32.ofInt_eq_ofNat]
  have z : c.z = hi.z - Int32.ofNat row := calc
    c.z = Int32.ofInt c.z.toInt := c.z.ofInt_toInt.symm
    _ = Int32.ofInt (hi.z.toInt - row) := congrArg _ (by omega)
    _ = hi.z - Int32.ofNat row := by
      rw [Int32.ofInt_sub, Int32.ofInt_toInt, Int32.ofInt_eq_ofNat]
  have right := Int32.le_iff_toInt_le.mp below.1
  have near := Int32.le_iff_toInt_le.mp above.2
  refine Screen.mem_boxCells.mpr ⟨?_, ?_, ?_⟩
  · simp only [extent]
    omega
  · simp only [extent]
    omega
  · rw [← x, ← z]

theorem get?_drawPanel_of_lt (f : Frame) {column x : Nat} (y : Nat) (beside : x < column) :
    (drawPanel w v column f).get? x y = f.get? x y :=
  List.foldlRecOn _ _ (motive := fun g : Frame => g.get? x y = f.get? x y) rfl
    fun g same _ _ => (g.get?_write_of_aside _ _ fun _ => .inl beside).trans same

variable {w v}

theorem char?_compose {lo hi c : Cell} {column row k width height : Nat}
    (narrow : w.board.Narrow) (box : w.board.cells.bounds = some (lo, hi))
    (above : lo ≤ c) (below : c ≤ hi) (lies : LiesAt lo hi c column row) (within : k < cellWidth)
    (wide : boardColumn + column * cellWidth + k < width) (high : boardRow + row + 1 < height) :
    char? (compose w v width height) (boardColumn + column * cellWidth + k) (boardRow + row)
      = (cellChars w v c)[k]? := by
  let x := boardColumn + column * cellWidth + k
  let y := boardRow + row
  let titled := drawTitle w v (.fill width height .blank)
  let board := drawBoard w v titled
  let panel := boardColumn + boardWidth w.board + panelGap
  have member := lies.mem_boxCells above below
  have beside : x < panel := by
    obtain ⟨left, -⟩ := mem_boxCells.mp member
    have cells : (column + 1) * cellWidth ≤ (extent lo hi).1 * cellWidth :=
      Nat.mul_le_mul_right cellWidth left
    simp only [x, panel, boardWidth, box]
    rw [Nat.add_mul] at cells
    omega
  have size := drawsOver_title w v (.fill width height .blank)
  have drawn : char? board x y = (cellChars w v c)[k]? := by
    simp only [board, drawBoard, box]
    exact char?_drawCells w v narrow titled within
      ⟨by rwa [size.width], by rw [size.height]; exact Nat.lt_of_succ_lt high⟩
      (fun d other => (mem_boxCells.mp other).2.2.trans (mem_boxCells.mp member).2.2.symm)
      (.inl member)
  -- Title and help take a row each, so neither covers the board.
  have tall : y + 1 < (drawPanel w v panel board).height := by
    rw [(drawsOver_panel w v panel board).height, (drawsOver_board w v titled).height, size.height]
    exact high
  calc char? (compose w v width height) x y
      = char? (drawPanel w v panel board) x y := congrArg _ (get?_drawHelp x tall)
    _ = char? board x y := congrArg _ (get?_drawPanel_of_lt w v board y beside)
    _ = (cellChars w v c)[k]? := drawn

/-- While a stage is played the picture shows its board, three columns for each cell of the box around
the floor: the glyph of the cell's tile or the mark of bare floor, and in the middle of the player's
cell the player. It is cut off at the right edge and above the last row only. -/
theorem picture_shows_board {f : StageFile} {stage : Stage} (built : f.build = .ok stage)
    {spawn : Pose} {config : SimConfig} {words : WordSource} {commands : List Tilewalk.Command}
    {told : List (List Event)} {w : World}
    (played : World.play stage.board spawn config words commands = .ok (told, w))
    (v : View) (width height : Nat) {lo hi c : Cell}
    (box : w.board.cells.bounds = some (lo, hi)) (above : lo ≤ c) (below : c ≤ hi) :
    ∃ text first middle last, Legend w.board c text ∧ text.toList = [first, middle, last] ∧
      middle ≠ '@' ∧ middle ≠ 'x' ∧
      ∀ k x y : Nat, k < 3 → (x : Int) = 1 + 3 * (c.x.toInt - lo.x.toInt) + k →
        (y : Int) = 2 + (hi.z.toInt - c.z.toInt) → x < width → y + 1 < height →
        char? (compose w v width height) x y =
          [first, if Stands w c then if w.player.isFalling then 'x' else '@' else middle, last][k]? := by
  have narrow := World.narrow_of_play built played
  have legend := legend_cellLabel w v c
  obtain ⟨first, middle, last, text, plain⟩ := legend.fillsCell narrow
  refine ⟨_, first, middle, last, legend, text, plain.1, plain.2, ?_⟩
  intro k x y within atColumn atRow wide high
  have right := Int32.le_iff_toInt_le.mp above.1
  have near := Int32.le_iff_toInt_le.mp below.2
  obtain ⟨column, fromLeft⟩ := Int.eq_ofNat_of_zero_le (Int.sub_nonneg_of_le right)
  obtain ⟨row, fromFar⟩ := Int.eq_ofNat_of_zero_le (Int.sub_nonneg_of_le near)
  obtain rfl : x = boardColumn + column * cellWidth + k := by
    simp only [boardColumn, cellWidth]
    omega
  obtain rfl : y = boardRow + row := by
    simp only [boardRow]
    omega
  rw [char?_compose narrow box above below ⟨fromLeft.symm, fromFar.symm⟩ within wide high, cellChars,
    text]
  by_cases stands : Stands w c
  · rw [if_pos stands, if_pos stands]
    rfl
  · rw [if_neg stands, if_neg stands]

def corner : StageFile where
  name := "corner"
  description := ""
  map := [[2, 1], [95, 0]]
  editable := []
  gems := []
  gates := []

/-- The player shows on the start as soon as the last of the rows above the help reaches it. -/
theorem corner_shows_player : ∃ stage told w, corner.build = .ok stage ∧
    World.play stage.board stage.spawn .standard (.stepping 0 1) [.changePhase .running]
      = .ok (told, w) ∧
    ∀ (v : View) (width height : Nat), 2 < width → 3 < height →
      char? (compose w v width height) 2 2 = some '@' := by
  have runs : corner.build.toOption.any (fun stage => (World.play stage.board stage.spawn .standard
      (.stepping 0 1) [.changePhase .running]).toOption.any (fun played => decide (
        played.2.board.cells.bounds = some (⟨0, -1⟩, ⟨1, 0⟩) ∧ Stands played.2 ⟨0, 0⟩ ∧
        played.2.player.isFalling = false))) = true := by
    decide +kernel
  obtain ⟨stage, built, continued⟩ := World.exists_of_any runs
  obtain ⟨⟨told, w⟩, played, facts⟩ := World.exists_of_any continued
  obtain ⟨box, stands, upright⟩ := of_decide_eq_true facts
  refine ⟨stage, told, w, built, played, fun v width height wide high => ?_⟩
  obtain ⟨_, first, middle, last, -, -, -, -, shown⟩ := picture_shows_board built played v width
    height box (c := ⟨0, 0⟩) (by decide) (by decide)
  rw [shown 1 2 2 (by decide) (by decide) (by decide) wide high, if_pos stands, upright]
  rfl

end Tilewalk.Screen
