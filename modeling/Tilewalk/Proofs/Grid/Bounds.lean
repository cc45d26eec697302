import Tilewalk.Grid.CellSet
import Tilewalk.View

/-! The box around the floor of a board. Its corners enclose every cell and every side of it is touched by
one, which leaves a single choice: the box depends on the cells alone and not on the order in which they
are visited. The author's cursor, once moved, is inside. -/

set_option autoImplicit false

namespace Tilewalk

namespace Cell

variable {a b c : Cell}

@[simp] theorem le_refl (a : Cell) : a ≤ a := ⟨Int32.le_refl a.x, Int32.le_refl a.z⟩

theorem le_trans (first : a ≤ b) (second : b ≤ c) : a ≤ c :=
  ⟨Int32.le_trans first.1 second.1, Int32.le_trans first.2 second.2⟩

theorem lower_le_left (a b : Cell) : a.lower b ≤ a := ⟨Std.min_le_left, Std.min_le_left⟩

theorem lower_le_right (a b : Cell) : a.lower b ≤ b := ⟨Std.min_le_right, Std.min_le_right⟩

theorem le_max (n m : Int32) : n ≤ max n m ∧ m ≤ max n m := by
  change (n ≤ if n ≤ m then m else n) ∧ m ≤ if n ≤ m then m else n
  split
  · next less => exact ⟨less, Int32.le_refl m⟩
  · next more => exact ⟨Int32.le_refl n, (Int32.le_total n m).resolve_left more⟩

theorem le_upper_left (a b : Cell) : a ≤ a.upper b := ⟨(le_max _ _).1, (le_max _ _).1⟩

theorem le_upper_right (a b : Cell) : b ≤ a.upper b := ⟨(le_max _ _).2, (le_max _ _).2⟩

theorem le_antisymm (first : a ≤ b) (second : b ≤ a) : a = b := by
  cases a
  cases b
  exact (Cell.mk.injEq ..).mpr
    ⟨Int32.le_antisymm first.1 second.1, Int32.le_antisymm first.2 second.2⟩

theorem max_eq_or (n m : Int32) : max n m = n ∨ max n m = m := by
  change (if n ≤ m then m else n) = n ∨ (if n ≤ m then m else n) = m
  split
  · exact .inr rfl
  · exact .inl rfl

/-- The corners of the smallest box around some cells: none of them lies outside, and each side of the
box is touched by one. -/
structure Corners (inside : Cell → Prop) (lo hi : Cell) : Prop where
  encloses : ∀ c, inside c → lo ≤ c ∧ c ≤ hi
  left : ∃ c, inside c ∧ c.x = lo.x
  right : ∃ c, inside c ∧ c.x = hi.x
  near : ∃ c, inside c ∧ c.z = lo.z
  far : ∃ c, inside c ∧ c.z = hi.z

section
variable {inside inside' : Cell → Prop} {lo hi lo' hi' : Cell}

theorem Corners.congr (corners : Corners inside lo hi) (same : ∀ c, inside c ↔ inside' c) :
    Corners inside' lo hi := by
  obtain rfl : inside = inside' := funext fun c => propext (same c)
  exact corners

theorem corners_self (c : Cell) : Corners (· = c) c c where
  encloses := by
    rintro _ rfl
    exact ⟨le_refl _, le_refl _⟩
  left := ⟨c, rfl, rfl⟩
  right := ⟨c, rfl, rfl⟩
  near := ⟨c, rfl, rfl⟩
  far := ⟨c, rfl, rfl⟩

theorem touched_of_eq_or {side : Cell → Int32} {old new : Int32} (d : Cell)
    (moved : new = old ∨ new = side d) (before : ∃ c, inside c ∧ side c = old) :
    ∃ c, (inside c ∨ c = d) ∧ side c = new := by
  rcases moved with stays | moves
  · obtain ⟨c, member, touches⟩ := before
    exact ⟨c, .inl member, touches.trans stays.symm⟩
  · exact ⟨d, .inr rfl, moves.symm⟩

theorem Corners.extend (corners : Corners inside lo hi) (d : Cell) :
    Corners (fun c => inside c ∨ c = d) (lo.lower d) (hi.upper d) where
  encloses := by
    rintro c (before | rfl)
    · obtain ⟨above, below⟩ := corners.encloses c before
      exact ⟨le_trans (lower_le_left lo d) above, le_trans below (le_upper_left hi d)⟩
    · exact ⟨lower_le_right lo c, le_upper_right hi c⟩
  left := touched_of_eq_or d Std.min_eq_or corners.left
  right := touched_of_eq_or d (max_eq_or _ _) corners.right
  near := touched_of_eq_or d Std.min_eq_or corners.near
  far := touched_of_eq_or d (max_eq_or _ _) corners.far

theorem Corners.inner (corners : Corners inside lo hi)
    (encloses : ∀ c, inside c → lo' ≤ c ∧ c ≤ hi') : lo' ≤ lo ∧ hi ≤ hi' := by
  obtain ⟨l, left, leftmost⟩ := corners.left
  obtain ⟨r, right, rightmost⟩ := corners.right
  obtain ⟨n, near, nearest⟩ := corners.near
  obtain ⟨f, far, farthest⟩ := corners.far
  exact ⟨⟨leftmost ▸ (encloses l left).1.1, nearest ▸ (encloses n near).1.2⟩,
    ⟨rightmost ▸ (encloses r right).2.1, farthest ▸ (encloses f far).2.2⟩⟩

theorem Corners.unique (corners : Corners inside lo hi) (corners' : Corners inside lo' hi') :
    lo' = lo ∧ hi' = hi := by
  obtain ⟨low, high⟩ := corners.inner corners'.encloses
  obtain ⟨low', high'⟩ := corners'.inner corners.encloses
  exact ⟨le_antisymm low low', le_antisymm high' high⟩

end

end Cell

namespace CellSet

variable {s : CellSet} {c : Cell}

def Encloses (s : CellSet) (c : Cell) : Prop :=
  ∃ lo hi, s.bounds = some (lo, hi) ∧ lo ≤ c ∧ c ≤ hi

@[simp] theorem mem_foldl_insert {cells : List Cell} :
    c ∈ cells.foldl CellSet.insert s ↔ c ∈ s ∨ c ∈ cells := by
  induction cells generalizing s with
  | nil => simp
  | cons d rest ih =>
    simp only [List.foldl_cons, ih, mem_insert, List.mem_cons, or_assoc]
    exact or_left_comm

@[simp] theorem mem_ofList {cells : List Cell} : c ∈ ofList cells ↔ c ∈ cells := by
  rw [ofList, mem_foldl_insert]
  exact or_iff_right List.not_mem_nil

/-- Every visited cell extends the box, and nothing else does. -/
theorem corners_foldl {inside : Cell → Prop} {lo hi : Cell} (cells : List Cell)
    (corners : Cell.Corners inside lo hi) :
    let box := cells.foldl (fun (lo, hi) d => (lo.lower d, hi.upper d)) (lo, hi)
    Cell.Corners (fun c => inside c ∨ c ∈ cells) box.1 box.2 := by
  -- The cells so far are general: each cell of the list joins them before the rest is looked at.
  induction cells generalizing inside lo hi with
  | nil => exact corners.congr fun c => by simp
  | cons d rest ih =>
    refine (ih (corners.extend d)).congr fun c => ?_
    rw [List.mem_cons, or_assoc]

theorem corners_of_bounds {lo hi : Cell} (known : s.bounds = some (lo, hi)) :
    Cell.Corners (· ∈ s) lo hi := by
  cases listed : s.toList with
  | nil => rw [bounds, listed] at known; cases known
  | cons first rest =>
    have corners := corners_foldl rest (Cell.corners_self first)
    rw [bounds, listed] at known
    rw [Option.some.inj known] at corners
    exact corners.congr fun c => by rw [mem_def, listed, List.mem_cons]

theorem exists_bounds (some : s.toList ≠ []) : ∃ lo hi, s.bounds = .some (lo, hi) := by
  cases known : s.bounds with
  | none => exact absurd (bounds_eq_none_iff.mp known) some
  | some box => exact ⟨box.1, box.2, rfl⟩

theorem bounds_eq_some_iff {lo hi : Cell} :
    s.bounds = some (lo, hi) ↔ Cell.Corners (· ∈ s) lo hi := by
  refine ⟨corners_of_bounds, fun corners => ?_⟩
  -- A box that is touched has a cell in it, so there is a box, and the smallest one is unique.
  obtain ⟨c, member, -⟩ := corners.left
  obtain ⟨lo', hi', known⟩ := exists_bounds (List.ne_nil_of_mem member)
  obtain ⟨rfl, rfl⟩ := corners.unique (corners_of_bounds known)
  exact known

theorem bounds_congr {t : CellSet} (same : ∀ c, c ∈ s ↔ c ∈ t) : s.bounds = t.bounds := by
  ext ⟨lo, hi⟩
  rw [bounds_eq_some_iff, bounds_eq_some_iff]
  exact ⟨fun corners => corners.congr same, fun corners => corners.congr fun c => (same c).symm⟩

theorem encloses_of_mem (member : c ∈ s) : s.Encloses c := by
  obtain ⟨lo, hi, known⟩ := exists_bounds (List.ne_nil_of_mem member)
  exact ⟨lo, hi, known, (corners_of_bounds known).encloses c member⟩

theorem corners_ordered {lo hi : Cell} (known : s.bounds = some (lo, hi)) : lo ≤ hi := by
  have corners := corners_of_bounds known
  obtain ⟨c, member, -⟩ := corners.left
  obtain ⟨above, below⟩ := corners.encloses c member
  exact Cell.le_trans above below

end CellSet

namespace View

theorem clampCoordinate_bounds (n : Int32) {lo hi : Int32} (ordered : lo ≤ hi) :
    lo ≤ clampCoordinate n lo hi ∧ clampCoordinate n lo hi ≤ hi := by
  unfold clampCoordinate
  split
  · exact ⟨Int32.le_refl lo, ordered⟩
  · next above =>
    split
    · exact ⟨ordered, Int32.le_refl hi⟩
    · next below => exact ⟨Int32.not_lt.mp above, Int32.not_lt.mp below⟩

theorem moveCursor_eq (v : View) (dx dz : Int32) (board : Board) :
    v.moveCursor dx dz board = { v with cursor := (v.moveCursor dx dz board).cursor } := by
  unfold moveCursor
  split <;> rfl

theorem clampCoordinate_of_inside {n lo hi : Int32} (above : lo ≤ n) (below : n ≤ hi) :
    clampCoordinate n lo hi = n := by
  rw [clampCoordinate, if_neg (Int32.not_lt.mpr above), if_neg (Int32.not_lt.mpr below)]

theorem moveCursor_of_bounds {board : Board} {lo hi : Cell} (v : View) (dx dz : Int32)
    (known : board.cells.bounds = some (lo, hi)) :
    v.moveCursor dx dz board = { v with cursor :=
      ⟨clampCoordinate (v.cursor.x + dx) lo.x hi.x, clampCoordinate (v.cursor.z + dz) lo.z hi.z⟩ } := by
  rw [moveCursor, known]

theorem moveCursor_inside {board : Board} {lo hi : Cell} (v : View) (dx dz : Int32)
    (known : board.cells.bounds = some (lo, hi)) :
    lo ≤ (v.moveCursor dx dz board).cursor ∧ (v.moveCursor dx dz board).cursor ≤ hi := by
  obtain ⟨x, z⟩ := CellSet.corners_ordered known
  obtain ⟨left, right⟩ := clampCoordinate_bounds (v.cursor.x + dx) x
  obtain ⟨near, far⟩ := clampCoordinate_bounds (v.cursor.z + dz) z
  rw [moveCursor_of_bounds v dx dz known]
  exact ⟨⟨left, near⟩, ⟨right, far⟩⟩

theorem encloses_moveCursor {v : View} {board : Board} (dx dz : Int32)
    (before : board.cells.Encloses v.cursor) :
    board.cells.Encloses (v.moveCursor dx dz board).cursor := by
  obtain ⟨lo, hi, known, -⟩ := before
  exact ⟨lo, hi, known, moveCursor_inside v dx dz known⟩

theorem add_eq_of_toInt {n step sum : Int32} (exactly : sum.toInt = n.toInt + step.toInt) :
    n + step = sum := by
  rw [← Int32.toInt_inj, Int32.toInt_add, ← exactly]
  exact sum.toInt_bmod

end View

namespace CellSet

/-- Insert any cells, in any order and as often as one likes. Unless there are none, the set has the
corners of the smallest box around them, in whatever order it is visited and they were inserted. On a
board with floor a move of the cursor that does not overflow, and so has a target, leads into the board's
box, and it leads to its target when that is in the box. -/
theorem bounds_are_smallest_box (cells : List Cell) :
    let s := ofList cells
    (s.bounds = none ↔ cells = []) ∧
    (cells ≠ [] → ∃ lo hi, s.bounds = some (lo, hi) ∧ Cell.Corners (· ∈ cells) lo hi) ∧
    (∀ visited : CellSet, visited.toList.Perm s.toList → visited.bounds = s.bounds) ∧
    (∀ others : List Cell, (∀ c, c ∈ others ↔ c ∈ cells) → (ofList others).bounds = s.bounds) ∧
    ∀ (board : Board) (v : View) (dx dz : Int32) (lo hi target : Cell),
      Cell.Corners (· ∈ board.cells) lo hi →
      target.x.toInt = v.cursor.x.toInt + dx.toInt →
      target.z.toInt = v.cursor.z.toInt + dz.toInt →
      let moved := v.moveCursor dx dz board
      lo ≤ moved.cursor ∧ moved.cursor ≤ hi ∧
        (lo ≤ target → target ≤ hi → moved = { v with cursor := target }) := by
  intro s
  have unlisted : s.toList = [] ↔ cells = [] := by
    rw [List.eq_nil_iff_forall_not_mem, List.eq_nil_iff_forall_not_mem]
    exact forall_congr' fun c => not_congr mem_ofList
  refine ⟨bounds_eq_none_iff.trans unlisted, fun filled => ?_, fun visited visits => ?_,
    fun others same => ?_, fun board v dx dz lo hi target corners x z => ?_⟩
  · obtain ⟨lo, hi, known⟩ := exists_bounds (mt unlisted.mp filled)
    exact ⟨lo, hi, known, (corners_of_bounds known).congr fun c => mem_ofList⟩
  · exact bounds_congr fun c => visits.mem_iff
  · exact bounds_congr fun c => by rw [mem_ofList, same, mem_ofList]
  · have known := bounds_eq_some_iff.mpr corners
    obtain ⟨above, below⟩ := View.moveCursor_inside v dx dz known
    refine ⟨above, below, fun least most => ?_⟩
    -- A target in the box is not clamped, and the words have its exact coordinates.
    rw [View.moveCursor_of_bounds v dx dz known, View.add_eq_of_toInt x, View.add_eq_of_toInt z,
      View.clampCoordinate_of_inside least.1 most.1, View.clampCoordinate_of_inside least.2 most.2]

/-- None of the three cells is a corner of the box, and the cursor gets to a corner without floor. -/
theorem three_cells_touch_their_box :
    let cells : List Cell := [⟨0, 0⟩, ⟨3, -2⟩, ⟨-1, 1⟩, ⟨3, -2⟩]
    let board := { Board.empty "three" with cells := ofList cells }
    Cell.Corners (· ∈ cells) ⟨-1, -2⟩ ⟨3, 1⟩ ∧
    (ofList [⟨-1, 1⟩, ⟨0, 0⟩, ⟨3, -2⟩]).bounds = some (⟨-1, -2⟩, ⟨3, 1⟩) ∧
    (View.opened ⟨0, 0⟩ 0 1).moveCursor 3 1 board = View.opened ⟨3, 1⟩ 0 1 ∧
    (⟨3, 1⟩ : Cell) ∉ cells := by
  intro cells board
  obtain ⟨-, tight, -, order, moves⟩ := bounds_are_smallest_box cells
  have box : (ofList cells).bounds = some (⟨-1, -2⟩, ⟨3, 1⟩) := by decide
  obtain ⟨lo, hi, known, corners⟩ := tight (by decide)
  cases box.symm.trans known
  have same (c : Cell) : c ∈ [⟨-1, 1⟩, ⟨0, 0⟩, ⟨3, -2⟩] ↔ c ∈ cells := by grind
  have floor := corners.congr fun c => (mem_ofList : c ∈ ofList cells ↔ c ∈ cells).symm
  obtain ⟨-, -, lands⟩ := moves board (View.opened ⟨0, 0⟩ 0 1) 3 1 _ _ ⟨3, 1⟩ floor rfl rfl
  exact ⟨corners, (order _ same).trans box, lands (by decide) (by decide), by decide⟩

end CellSet
end Tilewalk
