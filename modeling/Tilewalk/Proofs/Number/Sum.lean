import Mathlib
import Tilewalk.Number.Binary32

/-! Sums with a zero, or with what is not a number: adding it a second time changes nothing more, and a
sum with a zero lies on the same cell. -/

set_option autoImplicit false

namespace Tilewalk.Binary32

open Float.Model (Format)
open Float.Model.UnpackedFloat

@[simp] theorem ofModel_pack_unpack (x : Float32) : .ofModel (.pack x.toModel.unpack) = x :=
  Float32.ofBits_toBits x

@[simp] theorem unpack_pack_notANumber : (Float32.Model.pack .notANumber).unpack = .notANumber := rfl

@[simp] theorem unpack_pack_zero (s : Sign) : (Float32.Model.pack (.zero s)).unpack = .zero s := by
  cases s <;> rfl

/-- A number that can be added once more to any sum with it. -/
def Settles (z : Float32) : Prop :=
  z.toModel.unpack = .notANumber ∨ ∃ s, z.toModel.unpack = .zero s

theorem settles_zero_mul (x : Float32) : Settles (0 * x) := by
  have product : (0 * x).toModel
      = .pack (mul Format.binary32 (.zero .positive) x.toModel.unpack) := rfl
  rw [Settles, product]
  cases x.toModel.unpack with
  | infinity s => exact .inl (by simp [mul])
  | notANumber => exact .inl rfl
  | zero s => exact .inr ⟨_, by simp [mul]; rfl⟩
  | finite s m e positive => exact .inr ⟨_, by simp [mul]; rfl⟩

theorem add_eq_pack (x z : Float32) :
    x + z = .ofModel (.pack (add Format.binary32 x.toModel.unpack z.toModel.unpack)) := rfl

theorem add_eq_self_of_zero {x z : Float32} {s : Sign} (zero : z.toModel.unpack = .zero s)
    (other : ¬ ∃ t, x.toModel.unpack = .zero t) : x + z = x := by
  have sum : add Format.binary32 x.toModel.unpack (.zero s) = x.toModel.unpack := by
    cases unpacked : x.toModel.unpack with
    | zero t => exact absurd ⟨t, unpacked⟩ other
    | _ => simp [add]
  simp [add_eq_pack, zero, sum]

theorem add_add_of_settles {z : Float32} (settles : Settles z) (x : Float32) :
    x + z + z = x + z := by
  rcases settles with nan | ⟨s, zero⟩
  · have absorbed (y : Float32) : y + z = .ofModel (.pack .notANumber) := by
      rw [add_eq_pack, nan]
      cases y.toModel.unpack <;> rfl
    rw [absorbed, absorbed]
  · -- Where the sum differs at all, it does no further.
    by_cases signed : ∃ t, x.toModel.unpack = .zero t
    · obtain ⟨t, signed⟩ := signed
      rw [add_eq_pack (x + z), add_eq_pack x, signed, zero]
      cases t <;> cases s <;> rfl
    · rw [add_eq_self_of_zero zero signed, add_eq_self_of_zero zero signed]

@[simp] theorem nearestInt32_add_zero (x : Float32) : nearestInt32 (x + 0) = nearestInt32 x := by
  have zero : (0 : Float32).toModel.unpack = .zero .positive := rfl
  by_cases signed : ∃ t, x.toModel.unpack = .zero t
  · obtain ⟨t, signed⟩ := signed
    rw [nearestInt32, nearestInt32, add_eq_pack, signed, zero]
    cases t <;> rfl
  · rw [add_eq_self_of_zero zero signed]

end Tilewalk.Binary32
