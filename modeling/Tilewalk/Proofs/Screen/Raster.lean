import Tilewalk.Screen.Raster

/-! Rasters place by place: what stands at a place after filling and setting, and which places there
are. -/

set_option autoImplicit false

namespace Tilewalk.Screen

namespace Raster

variable {α : Type} {r : Raster α} {x y : Nat}

theorem get?_of_lt (inside : x < r.width ∧ y < r.height) : ∃ a, r.get? x y = some a := by
  have bound : y * r.width + x < r.spots.size := r.size_spots ▸ index_lt inside.1 inside.2
  exact ⟨r.spots[y * r.width + x], (if_pos inside).trans (Array.getElem?_eq_getElem bound)⟩

theorem lt_of_get? {a : α} (found : r.get? x y = some a) : x < r.width ∧ y < r.height := by
  unfold get? at found
  split at found
  · next inside => exact inside
  · cases found

theorem get?_fill {width height : Nat} (a : α) (inside : x < width ∧ y < height) :
    (fill width height a).get? x y = some a := by
  have bound : y * width + x < width * height := index_lt inside.1 inside.2
  have filled : (Array.replicate (width * height) a)[y * width + x]? = some a := by
    simp [bound]
  exact (if_pos inside).trans filled

theorem index_inj {width i j : Nat} (hx : x < width) (hi : i < width)
    (same : j * width + i = y * width + x) : x = i ∧ y = j := by
  have column := congrArg (· % width) same
  simp only [Nat.mul_add_mod_of_lt hx, Nat.mul_add_mod_of_lt hi] at column
  subst column
  have row : j * width = y * width := Nat.add_right_cancel same
  exact ⟨rfl, (Nat.eq_of_mul_eq_mul_right (Nat.zero_lt_of_lt hx) row).symm⟩

theorem get?_set {i j : Nat} (a : α) :
    (r.set i j a).get? x y = if (x, y) = (i, j) ∧ x < r.width ∧ y < r.height then some a
      else r.get? x y := by
  by_cases inside : x < r.width ∧ y < r.height
  · have bound : y * r.width + x < r.spots.size := r.size_spots ▸ index_lt inside.1 inside.2
    by_cases here : (x, y) = (i, j)
    · cases here
      simp [set, get?, inside, bound]
    · rw [if_neg fun both => here both.1]
      unfold set
      split
      · next target =>
        have other : j * r.width + i ≠ y * r.width + x := fun same => by
          obtain ⟨rfl, rfl⟩ := index_inj inside.1 target.1 same
          exact here rfl
        simp [get?, inside, other]
      · rfl
  · have out : (r.set i j a).get? x y = none := by
      simp only [get?, width_set, height_set, if_neg inside]
    rw [out, if_neg fun both => inside both.2, get?, if_neg inside]

@[simp] theorem mem_places : (x, y) ∈ r.places ↔ x < r.width ∧ y < r.height := by
  simp only [places, List.mem_flatMap, List.mem_map, List.mem_range, Prod.mk.injEq]
  constructor
  · rintro ⟨_, hy, _, hx, rfl, rfl⟩
    exact ⟨hx, hy⟩
  · rintro ⟨hx, hy⟩
    exact ⟨y, hy, x, hx, rfl, rfl⟩

theorem nodup_places (r : Raster α) : r.places.Nodup := by
  refine List.pairwise_flatMap.mpr ⟨fun y _ => ?_, ?_⟩
  · refine List.pairwise_map.mpr (List.nodup_range.imp fun distinct same => ?_)
    exact distinct (congrArg Prod.fst same)
  · refine List.nodup_range.imp fun distinct p here q there same => ?_
    obtain ⟨_, _, rfl⟩ := List.mem_map.mp here
    obtain ⟨_, _, rfl⟩ := List.mem_map.mp there
    exact distinct (congrArg Prod.snd same)

end Raster

namespace Frame

theorem get?_write_of_aside (f : Frame) {x y i j : Nat} (fg bg : Color) {text : List Char}
    (aside : j = y → i < x ∨ x + text.length ≤ i) :
    (f.write x y fg bg text).get? i j = f.get? i j := by
  induction text generalizing f x with
  | nil => rfl
  | cons c rest ih =>
    rw [List.length_cons] at aside
    have other : (i, j) ≠ (x, y) := fun same => by
      obtain ⟨rfl, rfl⟩ := Prod.mk.inj same
      rcases aside rfl with before | behind <;> omega
    have later := ih (f.set x y ⟨c, fg, bg⟩) (x := x + 1) fun row => by
      rcases aside row with before | behind <;> omega
    exact later.trans ((Raster.get?_set _).trans (if_neg fun both => other both.1))

theorem get?_write_append (f : Frame) {x y : Nat} (fg bg : Color) (before : List Char) (c : Char)
    (after : List Char) (inside : x + before.length < f.width ∧ y < f.height) :
    (f.write x y fg bg (before ++ c :: after)).get? (x + before.length) y = some ⟨c, fg, bg⟩ := by
  induction before generalizing f x with
  | nil =>
    refine (get?_write_of_aside _ fg bg fun _ => .inl (Nat.lt_succ_self x)).trans ?_
    exact (Raster.get?_set _).trans (if_pos ⟨rfl, inside⟩)
  | cons d rest ih =>
    have column : x + (d :: rest).length = x + 1 + rest.length := by
      rw [List.length_cons]
      omega
    rw [column] at inside ⊢
    exact ih (f.set x y ⟨d, fg, bg⟩)
      (by simpa using inside)

end Frame
end Tilewalk.Screen
