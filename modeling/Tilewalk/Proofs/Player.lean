import Tilewalk.Player
import Tilewalk.Proofs.Number.Order

/-! Steady players: gravity, rotation and spin are as the motion has them, and a held player stands still
on its way. Every operation that the simulation uses on a player keeps this. -/

set_option autoImplicit false

namespace Tilewalk
namespace Player

/-- The body and the cooldown are as the two flags of the motion have them. -/
structure Steady (p : Player) : Prop where
  grounded : p.isMoving = true → p.isFalling = false
  gravity : p.body.usesGravity = p.isFalling
  locked : p.body.rotationLocked = !p.isFalling
  spin : p.isFalling = false → p.body.spin = .zero
  cooldown : p.cooldown = 0 ∨ 0 < p.cooldown
  held : 0 < p.cooldown → p.isMoving = true ∧ p.body.velocity = .zero

theorem not_held_of_free {p : Player} (free : p.cooldown ≤ 0) : ¬ 0 < p.cooldown :=
  fun held => Binary32.not_le_of_lt held free

theorem Steady.held_of_not_free {p : Player} (steady : p.Steady) (kept : ¬ p.cooldown ≤ 0) :
    0 < p.cooldown := by
  rcases steady.cooldown with zero | held
  · rw [zero] at kept
    exact absurd (by decide) kept
  · exact held

theorem eq_of_spawned {spawn : Pose} {speed limit : Float32} {p : Player}
    (made : spawned spawn speed limit = .ok p) :
    p = ⟨.grounded spawn, .up, Binary32.clamp speed 0 (Binary32.clamp limit 0 topSpeed),
      Binary32.clamp limit 0 topSpeed, false, false, false, 0, spawn, .editing⟩ := by
  simp only [spawned] at made
  split at made
  · cases made
  · exact (Except.ok.inj made).symm

theorem steady_of_body_eq {p : Player} {pose : Pose} (body : p.body = .grounded pose)
    (grounded : p.isFalling = false) (free : p.cooldown = 0) : p.Steady where
  grounded := fun _ => grounded
  gravity := by rw [body, grounded]; rfl
  locked := by rw [body, grounded]; rfl
  spin := fun _ => by rw [body]; rfl
  cooldown := .inl free
  held := fun held => by
    rw [free] at held
    exact absurd held Binary32.not_zero_lt_zero

theorem steady_spawned {spawn : Pose} {speed limit : Float32} {p : Player}
    (made : spawned spawn speed limit = .ok p) : p.Steady := by
  cases eq_of_spawned made
  exact steady_of_body_eq rfl rfl rfl

theorem Steady.tickCooldown {p : Player} (steady : p.Steady) (kept : ¬ p.cooldown ≤ 0)
    (dt : Float32) : Steady { p with cooldown := Binary32.atLeast 0 (p.cooldown - dt) } :=
  { steady with
    cooldown := Binary32.atLeast_zero_nonneg _
    held := fun _ => steady.held (steady.held_of_not_free kept) }

theorem Steady.travel {p : Player} (steady : p.Steady) (free : p.cooldown ≤ 0) :
    p.travel.Steady :=
  { steady with held := fun held => absurd held (not_held_of_free free) }

theorem Steady.fall {p : Player} (steady : p.Steady) (free : p.cooldown ≤ 0) (spin : Vec3) :
    Steady { p with
      isMoving := false
      isFalling := true
      body := { p.body with spin := spin, usesGravity := true, rotationLocked := false } } where
  grounded := fun moving => by cases moving
  gravity := rfl
  locked := rfl
  spin := fun grounded => by cases grounded
  cooldown := steady.cooldown
  held := fun held => absurd held (not_held_of_free free)

theorem Steady.velocity_integrate {p : Player} (steady : p.Steady) (grounded : p.isFalling = false)
    (dt gravity : Float32) : (p.body.integrate dt gravity).velocity = p.body.velocity := by
  have weightless : p.body.usesGravity = false := steady.gravity.trans grounded
  simp [Body.integrate, Body.accelerated, weightless]

theorem Steady.integrate {p : Player} (steady : p.Steady) (dt gravity : Float32) :
    Steady { p with body := p.body.integrate dt gravity } :=
  { steady with
    gravity := steady.gravity
    locked := steady.locked
    spin := steady.spin
    held := fun held => by
      obtain ⟨moving, rest⟩ := steady.held held
      have same := steady.velocity_integrate (steady.grounded moving) dt gravity
      exact ⟨moving, same.trans rest⟩ }

theorem Steady.jump {p : Player} (steady : p.Steady) (moving : p.isMoving = true) (position : Vec3)
    (duration : Float32) : ((p.warp position).startCooldown duration).Steady :=
  { steady with
    gravity := steady.gravity
    locked := steady.locked
    spin := steady.spin
    cooldown := Binary32.atLeast_zero_nonneg _
    held := fun _ => ⟨moving, rfl⟩ }

theorem Steady.stopAtGoal {p : Player} (steady : p.Steady) (free : ¬ 0 < p.cooldown) :
    p.stopAtGoal.Steady where
  grounded := fun moving => by cases moving
  gravity := steady.gravity
  locked := steady.locked
  spin := fun _ => rfl
  cooldown := steady.cooldown
  held := fun held => absurd held free

end Player
end Tilewalk
