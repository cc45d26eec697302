import Tilewalk.Proofs.Screen.Drawing
import Tilewalk.Proofs.Screen.Texts

/-! Control characters in pictures. A picture shows the name of the board and the message of the view as
they are, and everything else in it is printable, so its pictures are printable exactly when these two
texts are. -/

set_option autoImplicit false

namespace Tilewalk.Screen

variable (w : World) (v : View)

/-! ## The texts that are shown as they are -/

theorem get?_drawHelp {f : Frame} (x : Nat) {row : Nat} (above : row + 1 < f.height) :
    (drawHelp f).get? x row = f.get? x row :=
  (drawsOver_help f).spares (fun _ drawn => Nat.ne_of_lt above drawn.1) x

theorem get?_drawPanel_drawBoard (f : Frame) (column x : Nat) {row : Nat} (above : row < boardRow) :
    (drawPanel w v column (drawBoard w v f)).get? x row = f.get? x row :=
  ((drawsOver_board w v f).trans (drawsOver_panel w v column _)).spares
    (fun _ drawn => Nat.not_le_of_lt above drawn.1) x

theorem title_shown {before after : List Char} {c : Char}
    (split : (title w v).toList = before ++ c :: after) :
    (compose w v (before.length + 1) 2).get? before.length 0 = some ⟨c, .white, titleColor⟩ := by
  let blank : Frame := .fill (before.length + 1) 2 .blank
  let row := blank.write 0 0 .white titleColor (List.replicate blank.width ' ')
  let panel := drawPanel w v (boardColumn + boardWidth w.board + panelGap)
    (drawBoard w v (drawTitle w v blank))
  have size : DrawsOver (fun _ _ => True) blank row := .write blank _ _ _ _ fun _ _ => trivial
  have inside : 0 + before.length < row.width ∧ 0 < row.height := by
    rw [size.width, size.height, Nat.zero_add]
    exact ⟨Nat.lt_succ_self _, Nat.two_pos⟩
  have titled : (drawTitle w v blank).get? before.length 0 = some ⟨c, .white, titleColor⟩ := by
    have shown := row.get?_write_append .white titleColor before c after inside
    rwa [← split, Nat.zero_add] at shown
  have height : panel.height = 2 := (drawsOver_panel w v _ _).height.trans
    ((drawsOver_board w v _).height.trans (drawsOver_title w v blank).height)
  calc (drawHelp panel).get? before.length 0
      = panel.get? before.length 0 := get?_drawHelp _ (by rw [height]; decide)
    _ = (drawTitle w v blank).get? before.length 0 :=
      get?_drawPanel_drawBoard w v _ _ _ (by decide)
    _ = some ⟨c, .white, titleColor⟩ := titled

theorem exists_panelLines (told : v.message ≠ "") : ∃ lines, panelLines w v
    = lines ++ [⟨" " ++ v.message ++ " ", .black, messageColor⟩] := by
  have some : v.message.isEmpty = false := by simpa using told
  exact ⟨_, by simp only [panelLines, messageLines, some]; rfl⟩

theorem message_shown (told : v.message ≠ "") {before after : List Char} {c : Char}
    (split : (" " ++ v.message ++ " ").toList = before ++ c :: after) :
    ∃ width height x y,
      (compose w v width height).get? x y = some ⟨c, .black, messageColor⟩ := by
  obtain ⟨lines, listed⟩ := exists_panelLines w v told
  -- The frame ends with the column of the character, and the help has a row of its own below it.
  let column := boardColumn + boardWidth w.board + panelGap
  let row := boardRow + lines.length
  let width := column + before.length + 1
  let height := row + 2
  let board := drawBoard w v (drawTitle w v (.fill width height .blank))
  let others := lines.zipIdx.foldl (fun f place =>
    f.write column (boardRow + place.2) place.1.fg place.1.bg place.1.text.toList) board
  have panel : drawPanel w v column board
      = others.write column row .black messageColor (before ++ c :: after) := by
    rw [drawPanel, listed, List.zipIdx_append, List.foldl_append, ← split]
    simp [row, others]
  have first := ((drawsOver_title w v (.fill width height .blank)).mono fun _ _ => And.right).trans
    ((drawsOver_board w v _).mono fun _ _ => And.right)
  have drawn : DrawsOver (fun _ _ => True) board others :=
    .foldl (fun f _ _ => .write f _ _ _ _ fun _ _ => trivial) board
  have size : others.width = width ∧ others.height = height :=
    ⟨drawn.width.trans first.width, drawn.height.trans first.height⟩
  have shown : (drawPanel w v column board).get? (column + before.length) row
      = some ⟨c, .black, messageColor⟩ := by
    rw [panel]
    exact others.get?_write_append .black messageColor before c after
      ⟨by rw [size.1]; exact Nat.lt_succ_self _, by rw [size.2]; omega⟩
  have above : row + 1 < (drawPanel w v column board).height := by
    rw [(drawsOver_panel w v column board).height, first.height]
    exact Nat.lt_succ_self _
  exact ⟨width, height, column + before.length, row, (get?_drawHelp _ above).trans shown⟩

/-! ## Printable pictures -/

/-- No picture of the world and the view, of whatever size, has a control character. -/
def PrintablePictures : Prop :=
  ∀ width height x y s, (compose w v width height).get? x y = some s → Printable s.char

variable {w v}

theorem Drawn.printable {s : Symbol} (drawn : Drawn w v s) (name : Clean w.board.name)
    (message : Clean v.message) : Printable s.char := by
  cases drawn with
  | title part =>
    rcases part with rfl | member
    · decide
    · exact (clean_title w v).mpr name _ member
  | @label cell c member =>
    have clean : Clean (cellLabel w v cell).1 := by
      unfold cellLabel
      split
      · next t _ => exact t.kind.clean_glyph
      · split <;> decide
    exact clean c member
  | player =>
    simp only [playerGlyph]
    split <;> decide
  | panel line member => exact clean_panelLines message _ line _ member
  | help member => exact (by decide : Clean helpText) _ member

theorem printablePictures_iff :
    PrintablePictures w v ↔ Clean w.board.name ∧ Clean v.message := by
  constructor
  · intro printable
    refine ⟨(clean_title w v).mp fun c member => ?_, fun c member => ?_⟩
    · obtain ⟨before, after, split⟩ := List.append_of_mem member
      exact printable _ _ _ _ _ (title_shown w v split)
    · have told : v.message ≠ "" := by
        rintro empty
        rw [empty] at member
        cases member
      have shown : c ∈ (" " ++ v.message ++ " ").toList := by simp [member]
      obtain ⟨before, after, split⟩ := List.append_of_mem shown
      obtain ⟨width, height, x, y, found⟩ := message_shown w v told split
      exact printable _ _ _ _ _ found
  · rintro ⟨name, message⟩ width height x y s found
    rcases drawn_of_compose w v width height found with drawn | rfl
    · exact drawn.printable name message
    · decide

end Tilewalk.Screen
