import Tilewalk.Proofs.Number.Sum
import Tilewalk.Proofs.Stage.Layout
import Tilewalk.Stage.Listing

/-! Where the player appears. Half a unit above a start tile lies over the floor of that tile, also on
boards so wide that their coordinates are rounded. -/

set_option autoImplicit false

namespace Tilewalk

theorem Cell.containing_add_up (p : Vec3) :
    containing (p + Vec3.up * (tileSize * 0.5)) = containing p := by
  -- Adding zero can change the sign of a zero, but not the cell.
  have half : Vec3.up * (tileSize * 0.5) = ⟨0, 0.5, 0⟩ := by decide
  simp [half, containing]

namespace StageFile

variable {f : StageFile} {stage : Stage}

theorem containing_spawn {pose : Pose} (made : f.spawn? f.board = .ok pose) :
    Cell.containing pose.position ∈ f.board.cells := by
  have sound := f.built_board.sound
  unfold spawn? at made
  split at made
  · next t found =>
    cases made
    obtain ⟨id, -, tile⟩ := Option.bind_eq_some_iff.mp found
    have floor := sound.floor id t tile
    rw [sound.placed id t tile] at floor
    exact (Cell.containing_add_up t.position).symm ▸ floor
  · cases made

end StageFile

namespace StageSource

variable {source : StageSource} {stage : Stage}

theorem exists_build_of_parse {text : String} {notices : List Notice}
    (parsed : Stage.parse text = .ok (stage, notices)) : ∃ f : StageFile, f.build = .ok stage := by
  unfold Stage.parse at parsed
  split at parsed
  · cases parsed
  · next f _ =>
    cases built : f.build with
    | error fault => simp [built, bind, Except.bind] at parsed
    | ok other =>
      simp only [built, bind, Except.bind, pure, Except.pure, Except.ok.injEq,
        Prod.mk.injEq] at parsed
      exact ⟨f, built.trans (congrArg _ parsed.1)⟩

theorem exists_build_of_load (loads : source.load = .ok stage) :
    ∃ f : StageFile, f.build = .ok stage := by
  unfold load at loads
  cases read : source.loadWithNotices with
  | error fault => simp [read, Except.map] at loads
  | ok outcome =>
    obtain ⟨other, notices⟩ := outcome
    simp only [read, Except.map, Except.ok.injEq] at loads
    subst loads
    unfold loadWithNotices at read
    split at read
    · exact exists_build_of_parse read
    · exact exists_build_of_parse read
    · cases read

theorem name_of_load (loads : source.load = .ok stage) : stage.board.name = stage.name := by
  obtain ⟨f, built⟩ := exists_build_of_load loads
  obtain ⟨name, -, board, -⟩ := f.build_eq_ok built
  simp [board, name]

theorem spawn_of_load (loads : source.load = .ok stage) :
    Cell.containing stage.spawn.position ∈ stage.board.cells := by
  obtain ⟨f, built⟩ := exists_build_of_load loads
  obtain ⟨-, -, board, spawn⟩ := f.build_eq_ok built
  rw [board]
  exact f.containing_spawn spawn

end StageSource
end Tilewalk
