import Tilewalk.Screen.Color

/-! Rectangles of values, and frames of text as rectangles of coloured characters. Writing outside of
a rectangle does nothing. -/

set_option autoImplicit false

namespace Tilewalk.Screen

structure Raster (α : Type) where
  width : Nat
  height : Nat
  /-- The values row by row. -/
  spots : Array α
  size_spots : spots.size = width * height

namespace Raster

variable {α : Type}

def fill (width height : Nat) (a : α) : Raster α :=
  ⟨width, height, Array.replicate (width * height) a, Array.size_replicate⟩

theorem index_lt {x y width height : Nat} (hx : x < width) (hy : y < height) :
    y * width + x < width * height := by
  have h₁ : (y + 1) * width ≤ height * width := Nat.mul_le_mul_right width hy
  rw [Nat.add_mul, Nat.one_mul] at h₁
  rw [Nat.mul_comm width height]
  omega

def get? (r : Raster α) (x y : Nat) : Option α :=
  if x < r.width ∧ y < r.height then r.spots[y * r.width + x]? else none

def set (r : Raster α) (x y : Nat) (a : α) : Raster α :=
  if x < r.width ∧ y < r.height then
    { r with
      spots := r.spots.setIfInBounds (y * r.width + x) a
      size_spots := by rw [Array.size_setIfInBounds, r.size_spots] }
  else r

@[simp] theorem width_set (r : Raster α) (x y : Nat) (a : α) : (r.set x y a).width = r.width := by
  unfold set; split <;> rfl

@[simp] theorem height_set (r : Raster α) (x y : Nat) (a : α) : (r.set x y a).height = r.height := by
  unfold set; split <;> rfl

/-- A raster of a size with one value everywhere; a raster that has the size already is kept. -/
def resize (r : Raster α) (width height : Nat) (a : α) : Raster α :=
  if r.width = width ∧ r.height = height then r else fill width height a

def refill (r : Raster α) (a : α) : Raster α := fill r.width r.height a

def row (r : Raster α) (y : Nat) : List α :=
  (List.range r.width).filterMap fun x => r.get? x y

def places (r : Raster α) : List (Nat × Nat) :=
  (List.range r.height).flatMap fun y => (List.range r.width).map fun x => (x, y)

end Raster

structure Symbol where
  char : Char
  fg : Color
  bg : Color
deriving DecidableEq

namespace Symbol

def blank : Symbol := ⟨' ', .white, .base⟩

def unknown : Symbol := ⟨'?', .magenta, .magenta⟩

end Symbol

abbrev Frame := Raster Symbol

namespace Frame

def get (f : Frame) (x y : Nat) : Symbol := (f.get? x y).getD .blank

/-- Write text from a column of a row on; what does not fit into the frame is cut off. -/
def write (f : Frame) (x y : Nat) (fg bg : Color) : List Char → Frame
  | [] => f
  | c :: rest => write (f.set x y ⟨c, fg, bg⟩) (x + 1) y fg bg rest

end Frame
end Tilewalk.Screen
