import Tilewalk.Proofs.Number.Nearest
import Tilewalk.Proofs.World.Operation

/-! Snapping to the grid. The centre of a cell lies on that cell however far away it is, so a player who
is put there stays over the same floor, or over the same hole. -/

set_option autoImplicit false

namespace Tilewalk

@[simp] theorem Cell.containing_center_containing (q : Vec3) (y : Float32) :
    containing ((containing q).center y) = containing q := by
  have x := Binary32.nearest_ofInt_nearest q.x
  have z := Binary32.nearest_ofInt_nearest q.z
  simp only [containing, center, x, z]

namespace Player

@[simp] theorem position_snap (p : Player) :
    p.snap.position = (Cell.containing p.position).center p.position.y := rfl

@[simp] theorem containing_snap (p : Player) :
    Cell.containing p.snap.position = Cell.containing p.position :=
  Cell.containing_center_containing p.position p.position.y

@[simp] theorem snap_snap (p : Player) : p.snap.snap = p.snap := by
  rw [snap, containing_snap, position_snap]
  rfl

end Player

@[simp] theorem CellSet.hasFloorAt_snap (cells : CellSet) (p : Player) :
    cells.hasFloorAt p.snap.position = cells.hasFloorAt p.position := by
  simp [hasFloorAt]

namespace World

theorem hasFloorAt_dispatch_arrow {w : World} {tile : TileId} {d : Direction}
    (found : w.board.kind? tile = some (.arrow d)) :
    (w.dispatch tile).2.board.cells.hasFloorAt (w.dispatch tile).2.player.position
      = w.board.cells.hasFloorAt w.player.position := by
  cases armed : w.player.skipArmed with
  | true =>
    have skips : Acts w tile _ _ := .skips found rfl armed
    rw [skips.dispatch_eq]
    rfl
  | false =>
    have turns : Acts w tile _ _ := .turns found armed
    rw [turns.dispatch_eq]
    exact w.board.cells.hasFloorAt_snap w.player

/-- The cell under a position is the cell under its own centre, for all positions. So snapping twice is
snapping once, at the same height and with the same floor or hole below, and an arrow neither makes the
player fall nor saves it. -/
theorem snapping_keeps_the_cell :
    (∀ (q : Vec3) (y : Float32),
      Cell.containing ((Cell.containing q).center y) = Cell.containing q) ∧
    (∀ p : Player, p.snap.snap = p.snap ∧ p.snap.position.y = p.position.y ∧
      ∀ cells : CellSet, cells.hasFloorAt p.snap.position = cells.hasFloorAt p.position) ∧
    ∀ (w : World) (tile : TileId) (d : Direction), w.board.kind? tile = some (.arrow d) →
      (w.dispatch tile).2.board.cells.hasFloorAt (w.dispatch tile).2.player.position
        = w.board.cells.hasFloorAt w.player.position :=
  ⟨Cell.containing_center_containing, fun p => ⟨p.snap_snap, rfl, (·.hasFloorAt_snap p)⟩,
    fun _ _ _ => hasFloorAt_dispatch_arrow⟩

/-- An arrow so far away that its cell is the last one of the range. -/
def distant : Board := (Board.empty "distant").addTile (.place (.arrow .right) ⟨3e9, 0, 0⟩)

/-- A player at infinity has the floor of the last cell below, before the turn and after it. -/
theorem turn_at_infinity_keeps_floor :
    ∃ w, opened distant ⟨⟨.ofBits 0x7f800000, 0.5, 0.4⟩, .identity⟩ .standard (.stepping 0 1) = .ok w ∧
      w.board.kind? 0 = some (.arrow .right) ∧
      (w.dispatch 0).2.player.position = ⟨2147483648, 0.5, 0⟩ ∧
      (w.dispatch 0).2.board.cells.hasFloorAt (w.dispatch 0).2.player.position = true := by
  have turns : (opened distant ⟨⟨.ofBits 0x7f800000, 0.5, 0.4⟩, .identity⟩ .standard
      (.stepping 0 1)).toOption.any (fun w => decide (w.board.kind? 0 = some (.arrow .right) ∧
        (w.dispatch 0).2.player.position = ⟨2147483648, 0.5, 0⟩ ∧
        w.board.cells.hasFloorAt w.player.position = true)) = true := by
    decide +kernel
  obtain ⟨w, made, facts⟩ := exists_of_any turns
  obtain ⟨arrow, moved, floor⟩ := of_decide_eq_true facts
  obtain ⟨-, -, kept⟩ := snapping_keeps_the_cell
  exact ⟨w, made, arrow, moved, (kept w 0 .right arrow).trans floor⟩

end World
end Tilewalk
