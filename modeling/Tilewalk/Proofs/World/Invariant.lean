import Tilewalk.Proofs.World.Coherence

/-! What can be observed in every world that operations lead to. The coherence of worlds carries the
induction; the properties here are read off it in the terms of an observer. -/

set_option autoImplicit false

namespace Tilewalk
namespace World

/-- The phase is known everywhere, the motion decides about the body, and nothing is left to tell. -/
structure Consistent (w : World) : Prop where
  player : w.player.phase = w.phase
  contacts : w.contacts.phase = w.phase
  exclusive : ¬ (w.player.isMoving = true ∧ w.player.isFalling = true)
  gravity : w.player.isFalling = w.player.body.usesGravity
  rotation : w.player.isFalling = !w.player.body.rotationLocked
  spin : w.player.isFalling = false → w.player.body.spin = .zero
  held : 0 < w.player.cooldown → w.player.isMoving = true ∧ w.player.isFalling = false ∧
    w.player.body.velocity = .zero
  parked : w.phase = .running → w.player.isMoving = false → w.player.isFalling = false →
    w.complete = true ∧ w.player.body.velocity = .zero
  finished : w.complete = true →
    w.phase = .running ∧ w.player.isMoving = false ∧ w.player.isFalling = false
  /-- Carried by the type of the heading, by which no other vector can be written. -/
  heading : w.player.heading.vector ∈ [⟨0, 0, 1⟩, ⟨1, 0, 0⟩, ⟨0, 0, -1⟩, ⟨-1, 0, 0⟩]
  drained : w.registers.pending = []
  oneEach : (w.timers.pending.map (·.tile)).Nodup
  gems : ∀ timer ∈ w.timers.pending, ∃ r o n, w.board.kind? timer.tile = some (.gem r o n)

variable {w : World}

theorem consistent_of_reachable (reachable : Reachable w) : w.Consistent := by
  have settled := reachable.settled
  have steady := settled.steady
  constructor
  case player => exact settled.player
  case contacts => exact settled.contacts
  case exclusive =>
    rintro ⟨moving, falling⟩
    cases falling.symm.trans (steady.grounded moving)
  case gravity => exact steady.gravity.symm
  case rotation => simp [steady.locked]
  case spin => exact steady.spin
  case held =>
    intro held
    obtain ⟨moving, zero⟩ := steady.held held
    exact ⟨moving, steady.grounded moving, zero⟩
  case parked => exact settled.parked
  case finished => exact settled.finished
  case heading => cases w.player.heading <;> simp [Direction.vector]
  case drained => exact settled.drained
  case oneEach => exact settled.oneEach
  case gems => exact settled.gems

theorem consistent_after_teleport :
    ∃ told w, onRow 3 [.step] = .ok (told, w) ∧ 0 < w.player.cooldown ∧ w.Consistent := by
  have teleports : (onRow 3 [.step]).toOption.any
      (fun played => decide (0 < played.2.player.cooldown)) = true := by
    decide +kernel
  obtain ⟨⟨told, w⟩, played, held⟩ := exists_of_any teleports
  exact ⟨told, w, played, of_decide_eq_true held, consistent_of_reachable (reachable_of_play played)⟩

end World
end Tilewalk
