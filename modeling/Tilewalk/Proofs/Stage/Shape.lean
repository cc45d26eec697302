import Tilewalk.Proofs.Stage.Codes

/-! Which stage files become stages. A file is turned down for the first fault of its map, and the faults
are looked for in a fixed order. -/

set_option autoImplicit false

namespace Tilewalk
namespace StageFile

def code? (f : StageFile) (row column : Nat) : Option Int32 :=
  f.map[row]?.bind (·[column]?)

/-- The map has no rows, or nothing in its first row. -/
def Blank (f : StageFile) : Prop :=
  f.map = [] ∨ ∃ rest, f.map = [] :: rest

/-- The first row whose length differs from that of the first row of all. -/
structure FirstRagged (f : StageFile) (row found expected : Nat) : Prop where
  here : f.map[row]?.map (·.length) = some found
  head : f.map.head?.map (·.length) = some expected
  differs : found ≠ expected
  first : ∀ before < row, f.map[before]?.map (·.length) = some expected

def Even (f : StageFile) : Prop :=
  ∀ row found expected, ¬ f.FirstRagged row found expected

/-- The editable map is absent, or its rows are as many and as long as those of the map. -/
def Fits (f : StageFile) : Prop :=
  f.editable = [] ∨ f.editable.map (·.length) = f.map.map (·.length)

def HasStart (f : StageFile) : Prop :=
  ∃ row column, f.code? row column = some 2

variable {f : StageFile}

theorem FirstRagged.eq {row found expected row' found' expected' : Nat}
    (ragged : f.FirstRagged row found expected) (ragged' : f.FirstRagged row' found' expected') :
    row = row' ∧ found = found' ∧ expected = expected' := by
  obtain rfl : expected = expected' := Option.some.inj (ragged.head.symm.trans ragged'.head)
  rcases Nat.lt_trichotomy row row' with less | rfl | greater
  · have same := ragged.here.symm.trans (ragged'.first row less)
    exact absurd (Option.some.inj same) ragged.differs
  · exact ⟨rfl, Option.some.inj (ragged.here.symm.trans ragged'.here), rfl⟩
  · have same := ragged'.here.symm.trans (ragged.first row' greater)
    exact absurd (Option.some.inj same) ragged'.differs

theorem width?_eq_none : f.width? = none ↔ f.Blank := by
  unfold width? Blank
  cases f.map with
  | nil => simp
  | cons row rest => cases row <;> simp

theorem width?_eq_some {width : Nat} (known : f.width? = some width) :
    f.map.head?.map (·.length) = some width := by
  unfold width? at known
  cases map : f.map with
  | nil => simp [map] at known
  | cons row rest => cases row <;> simp_all

theorem raggedRow?_eq_some {width row found : Nat} (known : f.width? = some width)
    (ragged : f.raggedRow? width = some (row, found)) : f.FirstRagged row found width := by
  obtain ⟨⟨codes, y⟩, search, same⟩ := Option.map_eq_some_iff.mp ragged
  cases same
  obtain ⟨differs, i, bound, there, others⟩ := List.find?_eq_some_iff_getElem.mp search
  rw [List.getElem_zipIdx, Nat.zero_add] at there
  cases there
  rw [List.length_zipIdx] at bound
  constructor
  case here => rw [List.getElem?_eq_getElem bound, Option.map_some]
  case head => exact width?_eq_some known
  case differs => simpa using differs
  case first =>
    intro before less
    have same := others before less
    rw [List.getElem_zipIdx] at same
    rw [List.getElem?_eq_getElem (Nat.lt_trans less bound), Option.map_some]
    exact congrArg some (by simpa using same)

theorem length_of_raggedRow?_eq_none {width : Nat} (none : f.raggedRow? width = none) :
    ∀ row ∈ f.map, row.length = width := by
  intro row member
  obtain ⟨y, bound, rfl⟩ := List.mem_iff_getElem.mp member
  have even := List.find?_eq_none.mp (Option.map_eq_none_iff.mp none) (f.map[y], y)
    (List.mem_zipIdx_iff_getElem?.mpr (List.getElem?_eq_getElem bound))
  simpa using even

theorem even_of_length {width : Nat} (known : f.width? = some width)
    (lengths : ∀ row ∈ f.map, row.length = width) : f.Even := by
  rintro row found expected ⟨here, head, differs, -⟩
  obtain rfl : expected = width := Option.some.inj (head.symm.trans (width?_eq_some known))
  obtain ⟨codes, there, rfl⟩ := Option.map_eq_some_iff.mp here
  exact differs (lengths codes (List.mem_of_getElem? there))

theorem editableFits_iff {width : Nat} (lengths : ∀ row ∈ f.map, row.length = width) :
    f.editableFits width = true ↔ f.Fits := by
  have shape : f.map.map (·.length) = List.replicate f.map.length width :=
    List.map_eq_replicate_iff.mpr lengths
  have same : f.editable.map (·.length) = f.map.map (·.length) ↔
      f.editable.length = f.map.length ∧ ∀ row ∈ f.editable, row.length = width := by
    rw [shape, List.eq_replicate_iff]
    simp
  rw [Fits, same]
  simp [editableFits]

end StageFile
end Tilewalk
