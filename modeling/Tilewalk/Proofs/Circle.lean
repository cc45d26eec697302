import Mathlib.Data.Int.ModEq
import Mathlib.SetTheory.Cardinal.Finite
import Tilewalk.Tile.Kind

/-! Values around a circle. Steps from a value add up, and they count modulo the number of values. This holds
of all values that have places of their own, as registers, operations and comparators do. -/

set_option autoImplicit false

namespace Tilewalk

section
variable {i len : Nat} {a b : Int}

theorem natCast_wrapIndex (i : Nat) (a : Int) (positive : 0 < len) :
    (wrapIndex i a len : Int) = (i + a) % len :=
  Int.toNat_of_nonneg (Int.emod_nonneg _ (by omega))

theorem wrapIndex_wrapIndex (i : Nat) (a b : Int) (positive : 0 < len) :
    wrapIndex (wrapIndex i a len) b len = wrapIndex i (a + b) len := by
  rw [wrapIndex, natCast_wrapIndex i a positive, Int.emod_add_emod, wrapIndex, Int.add_assoc]

@[simp] theorem wrapIndex_zero (inside : i < len) : wrapIndex i 0 len = i := by
  have small : (i : Int) % len = i := Int.emod_eq_of_lt (by omega) (by omega)
  rw [wrapIndex, Int.add_zero, small, Int.toNat_natCast]

theorem wrapIndex_congr (i : Nat) (same : a ≡ b [ZMOD len]) : wrapIndex i a len = wrapIndex i b len :=
  congrArg Int.toNat (same.add_left i)

theorem wrapIndex_eq_self_iff (inside : i < len) : wrapIndex i a len = i ↔ (len : Int) ∣ a := by
  constructor
  · intro back
    have around : (i : Int) + a ≡ i + 0 [ZMOD len] := by
      rw [Int.ModEq, ← natCast_wrapIndex i a (by omega), back, Int.add_zero]
      exact (Int.emod_eq_of_lt (by omega) (by omega)).symm
    exact Int.modEq_zero_iff_dvd.mp (around.add_left_cancel' i)
  · intro divides
    simp [wrapIndex_congr i (Int.modEq_zero_iff_dvd.mpr divides), inside]

end

/-- Values with the places from 0 to `len - 1`, one at each. -/
structure Circle (α : Type) where
  len : Nat
  index : α → Nat
  ofIndex : Nat → α
  index_lt : ∀ v, index v < len
  index_ofIndex : ∀ i < len, index (ofIndex i) = i
  ofIndex_index : ∀ v, ofIndex (index v) = v

/-- Steps from a value: two of them lead where any one leads that is congruent to their sum modulo the
number of values, and that number divides a step exactly when it leads back. -/
structure GoesAround {α : Type} (cycled : α → Int → α) : Prop where
  adds : ∀ (v : α) (a b c : Int), a + b ≡ c [ZMOD Nat.card α] → cycled (cycled v a) b = cycled v c
  returns : ∀ (v : α) (a : Int), cycled v a = v ↔ (Nat.card α : Int) ∣ a

namespace Circle

variable {α : Type} (circle : Circle α)

def cycled (v : α) (step : Int) : α := circle.ofIndex (wrapIndex (circle.index v) step circle.len)

def places : α ≃ Fin circle.len where
  toFun v := ⟨circle.index v, circle.index_lt v⟩
  invFun i := circle.ofIndex i
  left_inv := circle.ofIndex_index
  right_inv i := Fin.ext (circle.index_ofIndex i i.isLt)

theorem card_eq : Nat.card α = circle.len :=
  (Nat.card_congr circle.places).trans (Nat.card_fin circle.len)

@[simp] theorem index_cycled (v : α) (step : Int) :
    circle.index (circle.cycled v step) = wrapIndex (circle.index v) step circle.len :=
  circle.index_ofIndex _ (wrapIndex_lt _ step (Nat.zero_lt_of_lt (circle.index_lt v)))

theorem natCast_index_cycled (v : α) (step : Int) :
    (circle.index (circle.cycled v step) : Int) = (circle.index v + step) % circle.len := by
  rw [index_cycled, natCast_wrapIndex _ _ (Nat.zero_lt_of_lt (circle.index_lt v))]

theorem eq_of_index_eq {v u : α} (same : circle.index v = circle.index u) : v = u := by
  rw [← circle.ofIndex_index v, same, circle.ofIndex_index]

theorem eq_of_places {v u : α} {place : Int} (first : (circle.index v : Int) = place)
    (second : (circle.index u : Int) = place) : v = u :=
  circle.eq_of_index_eq (Int.ofNat.inj (first.trans second.symm))

theorem goesAround : GoesAround circle.cycled where
  adds v a b c sum := by
    rw [circle.card_eq] at sum
    apply circle.eq_of_index_eq
    rw [index_cycled, index_cycled, index_cycled,
      wrapIndex_wrapIndex _ a b (Nat.zero_lt_of_lt (circle.index_lt v))]
    exact wrapIndex_congr _ sum
  returns v a := by
    rw [circle.card_eq, ← wrapIndex_eq_self_iff (circle.index_lt v), ← index_cycled]
    exact ⟨congrArg circle.index, circle.eq_of_index_eq⟩

end Circle

namespace GoesAround

variable {α : Type} {cycled : α → Int → α} (around : GoesAround cycled)
include around

theorem cycled_zero (v : α) : cycled v 0 = v := (around.returns v 0).mpr (Int.dvd_zero _)

theorem cycled_add (v : α) (a b : Int) : cycled (cycled v a) b = cycled v (a + b) :=
  around.adds v a b _ rfl

theorem cycled_emod (v : α) (a : Int) : cycled v (a % Nat.card α) = cycled v a := by
  have same : a % Nat.card α + 0 ≡ a [ZMOD Nat.card α] := by
    rw [Int.add_zero]
    exact Int.mod_modEq a _
  exact (around.cycled_zero _).symm.trans (around.adds v _ 0 a same)

end GoesAround

def Register.circle : Circle Register where
  len := 3
  index := index
  ofIndex := ofIndex
  index_lt r := by cases r <;> decide
  index_ofIndex := by decide
  ofIndex_index := ofIndex_index

def Operation.circle : Circle Operation where
  len := 5
  index := index
  ofIndex := ofIndex
  index_lt o := by cases o <;> decide
  index_ofIndex := by decide
  ofIndex_index := ofIndex_index

def Comparator.circle : Circle Comparator where
  len := 6
  index := index
  ofIndex := ofIndex
  index_lt c := by cases c <;> decide
  index_ofIndex := by decide
  ofIndex_index := ofIndex_index

theorem Register.goesAround : GoesAround Register.cycled := circle.goesAround

theorem Operation.goesAround : GoesAround Operation.cycled := circle.goesAround

theorem Comparator.goesAround : GoesAround Comparator.cycled := circle.goesAround

end Tilewalk
