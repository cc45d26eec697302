import Tilewalk.Number.Binary32

/-! The order of 32-bit numbers, read off the comparison of unpacked ones, and the limits below and
above. Only what is not a number has no place in the order. -/

set_option autoImplicit false

namespace Tilewalk.Binary32

open Float.Model (UnpackedFloat)

theorem lt_iff_compare {x y : Float32} :
    x < y ↔ x.toModel.unpack.compare y.toModel.unpack = some .lt := by
  have reduced : x < y ↔ x.toModel.unpack.lt y.toModel.unpack = true := decide_eq_true_iff
  rw [reduced, UnpackedFloat.lt, beq_iff_eq]

theorem le_iff_compare {x y : Float32} :
    x ≤ y ↔ (x.toModel.unpack.compare y.toModel.unpack).any (·.isLE) = true :=
  decide_eq_true_iff

theorem compare_magnitude_swap (e₁ e₂ : Int) (m₁ m₂ : Nat) :
    (compare e₂ e₁).then (compare m₂ m₁) = ((compare e₁ e₂).then (compare m₁ m₂)).swap := by
  simp [Int.compare_swap, Nat.compare_swap, Ordering.swap_then]

theorem compare_swap (a b : UnpackedFloat) : b.compare a = (a.compare b).map .swap := by
  cases a with
  | notANumber => cases b with
    | infinity t => cases t <;> rfl
    | finite t => cases t <;> rfl
    | _ => rfl
  | infinity s => cases s <;> cases b with
    | infinity t => cases t <;> rfl
    | finite t => cases t <;> rfl
    | _ => rfl
  | zero s => cases b with
    | infinity t => cases t <;> rfl
    | finite t => cases t <;> rfl
    | _ => rfl
  | finite s m₁ e₁ => cases b with
    | infinity t => cases s <;> cases t <;> rfl
    | finite t m₂ e₂ =>
      -- Numbers of one sign are compared by size, and two negative ones the other way round.
      have sizes := compare_magnitude_swap e₁ e₂ m₁ m₂
      cases s with
      | positive => cases t with
        | positive => exact congrArg some sizes
        | negative => rfl
      | negative => cases t with
        | positive => rfl
        | negative => exact congrArg (fun order => some order.swap) sizes
    | _ => cases s <;> rfl

theorem not_le_of_lt {x y : Float32} (less : x < y) : ¬ y ≤ x := by
  rw [lt_iff_compare] at less
  rw [le_iff_compare, compare_swap, less]
  decide

theorem le_of_lt {x y : Float32} (less : x < y) : x ≤ y := by
  rw [lt_iff_compare] at less
  rw [le_iff_compare, less]
  rfl

theorem not_zero_lt_zero : ¬ (0 : Float32) < 0 := by decide

theorem not_lt_self (x : Float32) : ¬ x < x := by
  intro less
  have compared := lt_iff_compare.mp less
  have swapped := compare_swap x.toModel.unpack x.toModel.unpack
  rw [compared] at swapped
  cases swapped

theorem isNaN_eq_false_iff {x : Float32} : x.isNaN = false ↔ x.toModel.unpack ≠ .notANumber := by
  have reduced : x.isNaN = x.toModel.unpack.isNaN := rfl
  rw [reduced]
  cases x.toModel.unpack with
  | notANumber => exact iff_of_false nofun (· rfl)
  | _ => exact iff_of_true rfl nofun

theorem compare_eq_some {a b : UnpackedFloat} (left : a ≠ .notANumber) (right : b ≠ .notANumber) :
    ∃ order, a.compare b = some order := by
  cases a with
  | notANumber => exact absurd rfl left
  | infinity s => cases s <;> cases b with
    | notANumber => exact absurd rfl right
    | infinity t => cases t <;> exact ⟨_, rfl⟩
    | _ => exact ⟨_, rfl⟩
  | zero s => cases b with
    | notANumber => exact absurd rfl right
    | infinity t => cases t <;> exact ⟨_, rfl⟩
    | finite t => cases t <;> exact ⟨_, rfl⟩
    | zero => exact ⟨_, rfl⟩
  | finite s => cases b with
    | notANumber => exact absurd rfl right
    | infinity t => cases s <;> cases t <;> exact ⟨_, rfl⟩
    | finite t => cases s <;> cases t <;> exact ⟨_, rfl⟩
    | zero => cases s <;> exact ⟨_, rfl⟩

theorem le_of_not_lt {x y : Float32} (left : x.isNaN = false) (right : y.isNaN = false)
    (notLess : ¬ x < y) : y ≤ x := by
  obtain ⟨order, compared⟩ :=
    compare_eq_some (isNaN_eq_false_iff.mp left) (isNaN_eq_false_iff.mp right)
  rw [lt_iff_compare, compared] at notLess
  rw [le_iff_compare, compare_swap, compared]
  cases order with
  | lt => exact absurd rfl notLess
  | eq => rfl
  | gt => rfl

theorem le_self {x : Float32} (number : x.isNaN = false) : x ≤ x :=
  le_of_not_lt number number (not_lt_self x)

theorem numbers_of_compare {x y : Float32} {order : Ordering}
    (compared : x.toModel.unpack.compare y.toModel.unpack = some order) :
    x.isNaN = false ∧ y.isNaN = false := by
  constructor
  · rw [isNaN_eq_false_iff]
    intro nan
    rw [nan] at compared
    cases compared
  · rw [isNaN_eq_false_iff]
    intro nan
    rw [nan, compare_swap] at compared
    cases compared

theorem numbers_of_lt {x y : Float32} (less : x < y) : x.isNaN = false ∧ y.isNaN = false :=
  numbers_of_compare (lt_iff_compare.mp less)

theorem numbers_of_le {x y : Float32} (atMost : x ≤ y) : x.isNaN = false ∧ y.isNaN = false := by
  rw [le_iff_compare, Option.any_eq_true] at atMost
  obtain ⟨order, compared, -⟩ := atMost
  exact numbers_of_compare compared

theorem isNaN_clamp {x lo hi : Float32} (lower : lo.isNaN = false) (upper : hi.isNaN = false) :
    (clamp x lo hi).isNaN = x.isNaN := by
  unfold clamp
  split
  · next below => rw [lower, (numbers_of_lt below).1]
  · split
    · next above => rw [upper, (numbers_of_lt above).2]
    · rfl

theorem clamp_bounds {x lo hi : Float32} (number : x.isNaN = false) (ordered : lo ≤ hi) :
    lo ≤ clamp x lo hi ∧ clamp x lo hi ≤ hi := by
  obtain ⟨lower, upper⟩ := numbers_of_le ordered
  unfold clamp
  split
  · exact ⟨le_self lower, ordered⟩
  · next notBelow =>
    split
    · exact ⟨ordered, le_self upper⟩
    · next notAbove => exact ⟨le_of_not_lt number lower notBelow, le_of_not_lt upper number notAbove⟩

theorem clamp_clamp (x : Float32) {lo hi : Float32} (ordered : lo ≤ hi) :
    clamp (clamp x lo hi) lo hi = clamp x lo hi := by
  have above : ¬ hi < lo := fun less => not_le_of_lt less ordered
  by_cases low : x < lo
  · simp [clamp, low, not_lt_self, above]
  · by_cases high : hi < x
    · simp [clamp, low, high, not_lt_self, above]
    · simp [clamp, low, high]

theorem atLeast_cases (floor x : Float32) :
    atLeast floor x = floor ∨ floor < x ∧ atLeast floor x = x := by
  unfold atLeast
  split
  · next above => exact .inr ⟨above, rfl⟩
  · exact .inl rfl

@[simp] theorem zero_lt_atLeast_iff {x : Float32} : 0 < atLeast 0 x ↔ 0 < x := by
  rcases atLeast_cases 0 x with floor | ⟨above, same⟩
  · rw [floor]
    constructor
    · intro less
      exact absurd less not_zero_lt_zero
    · intro above
      rw [atLeast, if_pos above] at floor
      rwa [floor] at above
  · rw [same]

theorem atLeast_zero_nonneg (x : Float32) : atLeast 0 x = 0 ∨ 0 < atLeast 0 x := by
  rcases atLeast_cases 0 x with floor | ⟨above, same⟩
  · exact .inl floor
  · exact .inr (same.symm ▸ above)

end Tilewalk.Binary32
