import Tilewalk.Grid.Cell

/-! The floor of a board: a set of cells. Membership is all that an insertion changes, and the corners
of the bounding box depend on membership alone. -/

set_option autoImplicit false

namespace Tilewalk

structure CellSet where
  toList : List Cell
  nodup : toList.Nodup

namespace CellSet

def empty : CellSet := ⟨[], .nil⟩

instance : EmptyCollection CellSet := ⟨empty⟩

instance : Membership Cell CellSet where
  mem s c := c ∈ s.toList

instance (c : Cell) (s : CellSet) : Decidable (c ∈ s) :=
  inferInstanceAs (Decidable (c ∈ s.toList))

theorem mem_def {c : Cell} {s : CellSet} : c ∈ s ↔ c ∈ s.toList := Iff.rfl

@[simp] theorem not_mem_empty (c : Cell) : c ∉ empty := List.not_mem_nil

def insert (s : CellSet) (c : Cell) : CellSet :=
  if h : c ∈ s.toList then s else ⟨c :: s.toList, List.nodup_cons.mpr ⟨h, s.nodup⟩⟩

@[simp] theorem mem_insert {s : CellSet} {c d : Cell} : d ∈ s.insert c ↔ d = c ∨ d ∈ s := by
  unfold insert
  split
  · rename_i h
    constructor
    · exact Or.inr
    · rintro (rfl | hd)
      · exact h
      · exact hd
  · exact List.mem_cons

def ofList (cells : List Cell) : CellSet :=
  cells.foldl insert empty

def size (s : CellSet) : Nat := s.toList.length

def isEmpty (s : CellSet) : Bool := s.toList.isEmpty

def hasFloorAt (s : CellSet) (p : Vec3) : Bool :=
  decide (Cell.containing p ∈ s)

def bounds (s : CellSet) : Option (Cell × Cell) :=
  match s.toList with
  | [] => none
  | c :: rest => some (rest.foldl (fun (lo, hi) d => (lo.lower d, hi.upper d)) (c, c))

theorem bounds_eq_none_iff {s : CellSet} : s.bounds = none ↔ s.toList = [] := by
  unfold bounds
  split <;> simp_all

end CellSet
end Tilewalk
