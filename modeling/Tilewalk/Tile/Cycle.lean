/-! Stepping around a circle of numbered places. -/

set_option autoImplicit false

namespace Tilewalk

/-- The place reached from `i` by `step` steps around a circle of `len` places; negative steps go
backwards. -/
def wrapIndex (i : Nat) (step : Int) (len : Nat) : Nat :=
  ((i + step) % len).toNat

theorem wrapIndex_lt (i : Nat) (step : Int) {len : Nat} (h : 0 < len) :
    wrapIndex i step len < len := by
  have hlen : (len : Int) ≠ 0 := by omega
  have h₁ := Int.emod_nonneg (i + step) hlen
  have h₂ := Int.emod_lt_of_pos (i + step) (show (0 : Int) < len by omega)
  unfold wrapIndex
  omega

end Tilewalk
