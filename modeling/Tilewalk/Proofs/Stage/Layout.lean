import Tilewalk.Proofs.Board
import Tilewalk.Proofs.Number.Whole
import Tilewalk.Proofs.Stage.Shape

/-! The board of a stage file. The entries of the map come row by row, those with a tile code become the
tiles in that order, and each tile stands on the cell of its entry. -/

set_option autoImplicit false

namespace Tilewalk

namespace Cell

/-- The cell of a row and a column: columns go to the right, and rows come nearer. -/
def IsAt (c : Cell) (row column : Nat) : Prop :=
  c.x.toInt = column ∧ c.z.toInt = -row

theorem IsAt.eq {c d : Cell} {row column : Nat} (here : c.IsAt row column)
    (there : d.IsAt row column) : c = d := by
  obtain ⟨x, z⟩ := c
  obtain ⟨x', z'⟩ := d
  rw [Cell.mk.injEq]
  exact ⟨Int32.toInt.inj (here.1.trans there.1.symm), Int32.toInt.inj (here.2.trans there.2.symm)⟩

structure Exact (c : Cell) : Prop where
  x : c.x.toInt.natAbs < 2 ^ 24
  z : c.z.toInt.natAbs < 2 ^ 24

variable {c : Cell}

theorem Exact.containing_center (exact : c.Exact) (y : Float32) : containing (c.center y) = c := by
  have x : Binary32.nearestInt32 (Binary32.ofInt c.x.toInt) = c.x :=
    (Binary32.isWhole_ofInt exact.x).nearest.trans (Int32.ofIntClamp_toInt c.x)
  have z : Binary32.nearestInt32 (Binary32.ofInt c.z.toInt) = c.z :=
    (Binary32.isWhole_ofInt exact.z).nearest.trans (Int32.ofIntClamp_toInt c.z)
  rw [containing, center, x, z]

theorem Exact.center_mul_tileSize (exact : c.Exact) : c.center 0 * tileSize = c.center 0 := by
  have x := (Binary32.isWhole_ofInt exact.x).mul_one
  have z := (Binary32.isWhole_ofInt exact.z).mul_one
  have y : (0 : Float32) * 1 = 0 := by decide
  change Vec3.mk (Binary32.ofInt c.x.toInt * 1) (0 * 1) (Binary32.ofInt c.z.toInt * 1) = _
  rw [x, y, z, center]

theorem Exact.center_add_up (exact : c.Exact) :
    c.center 0 + Vec3.up * (tileSize * 0.5) = c.center 0.5 := by
  have x := (Binary32.isWhole_ofInt exact.x).add_zero
  have z := (Binary32.isWhole_ofInt exact.z).add_zero
  have half : Vec3.up * (tileSize * 0.5) = ⟨0, 0.5, 0⟩ := by decide
  have y : (0 : Float32) + 0.5 = 0.5 := by decide
  rw [half]
  change Vec3.mk (Binary32.ofInt c.x.toInt + 0) (0 + 0.5) (Binary32.ofInt c.z.toInt + 0) = _
  rw [x, y, z, center]

end Cell

namespace StageFile

/-- The map has less than 2 ^ 24 rows and columns. -/
structure Bounded (f : StageFile) : Prop where
  rows : f.map.length < 2 ^ 24
  columns : ∀ row ∈ f.map, row.length < 2 ^ 24

def Before (first second : Nat × Nat × Int32) : Prop :=
  first.1 < second.1 ∨ first.1 = second.1 ∧ first.2.1 < second.2.1

def placed (f : StageFile) : List (Nat × Nat × Int32) :=
  f.entries.filter fun (_, _, code) => IsTileCode code

def tile? (f : StageFile) : Nat × Nat × Int32 → Option Tile
  | (row, column, code) => f.tileOf row column code

variable {f : StageFile} {row column : Nat} {code : Int32}

/-! ## Entries -/

@[simp] theorem mem_entries : (row, column, code) ∈ f.entries ↔ f.code? row column = some code := by
  simp only [entries, List.mem_flatMap, List.mem_map, Prod.exists, List.mem_zipIdx_iff_getElem?,
    code?, Option.bind_eq_some_iff]
  grind

theorem pairwise_zipIdx {α : Type} (l : List α) :
    l.zipIdx.Pairwise fun first second => first.2 < second.2 := by
  have order : (l.zipIdx.map (·.2)).Pairwise (· < ·) := by
    rw [List.zipIdx_map_snd]
    exact List.pairwise_lt_range'
  exact List.pairwise_map.mp order

theorem entries_pairwise (f : StageFile) : f.entries.Pairwise Before := by
  rw [entries, List.pairwise_flatMap]
  -- Two entries are in one row, or in two different ones.
  constructor
  · rintro ⟨codes, row⟩ -
    refine List.pairwise_map.mpr ((pairwise_zipIdx codes).imp ?_)
    intro first second less
    exact .inr ⟨rfl, less⟩
  · refine (pairwise_zipIdx f.map).imp ?_
    intro first second less entry member entry' member'
    obtain ⟨_, -, rfl⟩ := List.mem_map.mp member
    obtain ⟨_, -, rfl⟩ := List.mem_map.mp member'
    exact .inl less

@[simp] theorem mem_placed :
    (row, column, code) ∈ f.placed ↔ f.code? row column = some code ∧ IsTileCode code := by
  simp [placed]

theorem exists_number (found : f.code? row column = some code) (tile : IsTileCode code) :
    ∃ id : TileId, f.placed[id]? = some (row, column, code) :=
  List.mem_iff_getElem?.mp (mem_placed.mpr ⟨found, tile⟩)

theorem placed_pairwise (f : StageFile) : f.placed.Pairwise Before :=
  f.entries_pairwise.filter _

theorem Bounded.exact (bounded : f.Bounded) (found : f.code? row column = some code) :
    (cellOf row column).IsAt row column ∧ (cellOf row column).Exact := by
  obtain ⟨codes, there, entry⟩ := Option.bind_eq_some_iff.mp found
  have rows : row < 2 ^ 24 :=
    Nat.lt_trans (List.getElem?_eq_some_iff.mp there).1 bounded.rows
  have columns : column < 2 ^ 24 :=
    Nat.lt_trans (List.getElem?_eq_some_iff.mp entry).1
      (bounded.columns codes (List.mem_of_getElem? there))
  have x : (cellOf row column).x.toInt = column := Int32.toInt_ofNat_of_lt (by omega)
  have z : (cellOf row column).z.toInt = -row := by
    rw [cellOf, Int32.toInt_neg, Int32.toInt_ofNat_of_lt (by omega)]
    exact Int.bmod_eq_of_le (by omega) (by omega)
  exact ⟨⟨x, z⟩, by rw [x]; omega, by rw [z]; omega⟩

theorem Bounded.eq_cellOf_iff (bounded : f.Bounded) (found : f.code? row column = some code)
    {c : Cell} : c = cellOf row column ↔ c.IsAt row column := by
  have here := (bounded.exact found).1
  constructor
  · rintro rfl
    exact here
  · intro there
    exact there.eq here

/-! ## Tiles -/

/-- The tile of an entry of the map. -/
structure TileFor (f : StageFile) (row column : Nat) (code : Int32) (t : Tile) : Prop where
  kind : f.Codes code t.kind
  position : t.position = (cellOf row column).center 0
  cell : t.cell = cellOf row column
  edit : t.edit = f.editRuleOf row column t.kind

theorem tileOf_eq_some (bounded : f.Bounded) (found : f.code? row column = some code) {t : Tile}
    (made : f.tileOf row column code = some t) : f.TileFor row column code t := by
  obtain ⟨kind, known, rfl⟩ := Option.map_eq_some_iff.mp made
  have exact := (bounded.exact found).2
  constructor
  case kind => exact kindOf_eq_some_iff.mp known
  case position => exact exact.center_mul_tileSize
  case cell =>
    have under : Cell.containing ((cellOf row column).center 0 * tileSize) = cellOf row column := by
      rw [exact.center_mul_tileSize, exact.containing_center]
    exact under
  case edit => rfl

@[simp] theorem isSome_tile? (f : StageFile) (entry : Nat × Nat × Int32) :
    (f.tile? entry).isSome = decide (IsTileCode entry.2.2) := by
  rw [tile?, tileOf, Option.isSome_map, Bool.eq_iff_iff, Option.isSome_iff_exists, decide_eq_true_iff,
    isTileCode_iff]

theorem tiles_foldl (f : StageFile) (entries : List (Nat × Nat × Int32)) (b : Board) :
    (entries.foldl f.place b).tiles
      = b.tiles ++ entries.filterMap f.tile? := by
  induction entries generalizing b with
  | nil => simp
  | cons entry rest ih =>
    obtain ⟨row, column, code⟩ := entry
    rw [List.foldl_cons, ih]
    cases tile : f.tile? (row, column, code) with
    | none =>
      have nothing : f.tileOf row column code = none := tile
      have same : (f.place b (row, column, code)).tiles = b.tiles := by
        simp only [place, nothing]
        split <;> rfl
      rw [same, List.filterMap_cons_none tile]
    | some t =>
      have made : f.tileOf row column code = some t := tile
      have more : (f.place b (row, column, code)).tiles = b.tiles ++ [t] := by
        simp [place, made, Board.addTile]
      rw [more, List.filterMap_cons_some tile, List.append_assoc, List.singleton_append]

theorem built_board (f : StageFile) : f.board.Built := by
  refine List.foldlRecOn f.entries f.place .empty ?_
  rintro b built ⟨row, column, code⟩ -
  cases known : f.kindOf code with
  | none =>
    simp only [place, tileOf, known, Option.map_none]
    split
    · exact built
    · exact built.addFloor
  | some kind =>
    simp only [place, tileOf, known, Option.map_some]
    exact built.addTile

@[simp] theorem name_board (f : StageFile) : f.board.name = f.name := by
  have first : (Board.empty f.name).name = f.name := rfl
  refine List.foldlRecOn (motive := fun b => b.name = f.name) f.entries f.place first ?_
  rintro b same ⟨row, column, code⟩ -
  rw [← same, place]
  split
  · rfl
  · split <;> rfl

theorem getElem?_filterMap {α β : Type} (g : α → Option β) (l : List α) (i : Nat) :
    (l.filterMap g)[i]? = (l.filter fun a => (g a).isSome)[i]?.bind g := by
  induction l generalizing i with
  | nil => rfl
  | cons a rest ih =>
    cases known : g a with
    | none => simpa [known] using ih i
    | some b =>
      cases i with
      | zero => simp [known]
      | succ i => simpa [known] using ih i

theorem tiles_board (f : StageFile) : f.board.tiles = f.entries.filterMap f.tile? :=
  f.tiles_foldl f.entries (.empty f.name)

theorem placed_eq (f : StageFile) : f.placed = f.entries.filter fun e => (f.tile? e).isSome := by
  simp only [isSome_tile?]
  rfl

/-- The tiles of the board are those of the placed entries, with the same numbers. -/
theorem tile?_board (f : StageFile) (id : TileId) :
    f.board.tile? id = f.placed[id]?.bind f.tile? := by
  rw [Board.tile?, tiles_board, getElem?_filterMap, placed_eq]

theorem length_tiles_board (f : StageFile) : f.board.tiles.length = f.placed.length := by
  rw [tiles_board, placed_eq, List.length_filterMap_eq_countP, List.countP_eq_length_filter]

theorem exists_tileFor (bounded : f.Bounded) {id : TileId}
    (there : f.placed[id]? = some (row, column, code)) :
    ∃ t, f.board.tile? id = some t ∧ f.TileFor row column code t := by
  obtain ⟨found, tile⟩ := mem_placed.mp (List.mem_of_getElem? there)
  have known : (f.tile? (row, column, code)).isSome = true := by
    simp [tile]
  obtain ⟨t, made⟩ := Option.isSome_iff_exists.mp known
  refine ⟨t, ?_, tileOf_eq_some bounded found made⟩
  rw [tile?_board, there]
  exact made

theorem exists_placed (bounded : f.Bounded) {id : TileId} {t : Tile}
    (found : f.board.tile? id = some t) :
    ∃ row column code, f.placed[id]? = some (row, column, code) ∧ f.TileFor row column code t := by
  rw [tile?_board] at found
  obtain ⟨⟨row, column, code⟩, there, made⟩ := Option.bind_eq_some_iff.mp found
  have entry := (mem_placed.mp (List.mem_of_getElem? there)).1
  exact ⟨row, column, code, there, tileOf_eq_some bounded entry made⟩

theorem before_of_lt {first second : Nat × Nat × Int32} {i j : Nat} (less : i < j)
    (here : f.placed[i]? = some first) (there : f.placed[j]? = some second) :
    Before first second := by
  obtain ⟨bound, rfl⟩ := List.getElem?_eq_some_iff.mp here
  obtain ⟨bound', rfl⟩ := List.getElem?_eq_some_iff.mp there
  exact List.pairwise_iff_getElem.mp f.placed_pairwise i j bound bound' less

theorem not_before_self (entry : Nat × Nat × Int32) : ¬ Before entry entry := by
  rintro (less | ⟨-, less⟩)
  · exact Nat.lt_irrefl _ less
  · exact Nat.lt_irrefl _ less

theorem Before.asymm {first second : Nat × Nat × Int32} (before : Before first second) :
    ¬ Before second first := by
  unfold Before at *
  omega

/-- No two tiles share a cell, so each is found on its own. -/
theorem tileAt?_board (bounded : f.Bounded) {id : TileId}
    (there : f.placed[id]? = some (row, column, code)) :
    f.board.tileAt? (cellOf row column) = some id := by
  obtain ⟨t, found, tile⟩ := exists_tileFor bounded there
  obtain ⟨bound, same⟩ := List.getElem?_eq_some_iff.mp found
  refine List.findIdx?_eq_some_iff_getElem.mpr ⟨bound, ?_, fun other less => ?_⟩
  · rw [same]
    exact decide_eq_true tile.cell
  · have earlier : f.board.tile? other = some f.board.tiles[other] :=
      List.getElem?_eq_getElem (Nat.lt_trans less bound)
    obtain ⟨row', column', code', there', tile'⟩ := exists_placed bounded earlier
    -- On one cell the earlier entry would be in the very same row and column.
    rw [decide_eq_true_iff, tile'.cell]
    intro shared
    have at' := (bounded.exact (mem_placed.mp (List.mem_of_getElem? there')).1).1
    have here := (bounded.exact (mem_placed.mp (List.mem_of_getElem? there)).1).1
    rw [shared] at at'
    have before : row' < row ∨ row' = row ∧ column' < column := before_of_lt less there' there
    have rows := at'.2.symm.trans here.2
    have columns := at'.1.symm.trans here.1
    omega

theorem exists_tile (bounded : f.Bounded) (found : f.code? row column = some code)
    (tile : IsTileCode code) : ∃ id, f.board.tileAt? (cellOf row column) = some id ∧
      ∃ t, f.board.tile? id = some t ∧ f.TileFor row column code t := by
  obtain ⟨id, there⟩ := exists_number found tile
  exact ⟨id, tileAt?_board bounded there, exists_tileFor bounded there⟩

/-! ## Floor -/

theorem mem_cells_place (bounded : f.Bounded) (found : f.code? row column = some code) {b : Board}
    {c : Cell} : c ∈ (f.place b (row, column, code)).cells ↔
      c ∈ b.cells ∨ code ≠ 0 ∧ c = cellOf row column := by
  cases made : f.tileOf row column code with
  | none =>
    by_cases bare : code = 0
    · simp only [place, made, if_pos bare]
      simp [bare]
    · simp [place, made, bare, Board.addFloor, or_comm]
  | some t =>
    have tile := tileOf_eq_some bounded found made
    have coded : code ≠ 0 := by
      rintro rfl
      cases kindOf_eq_some_iff.mpr tile.kind
    simp [place, made, coded, Board.addTile, tile.cell, or_comm]

theorem mem_cells_foldl (bounded : f.Bounded) {entries : List (Nat × Nat × Int32)}
    (found : ∀ e ∈ entries, f.code? e.1 e.2.1 = some e.2.2) {b : Board} {c : Cell} :
    c ∈ (entries.foldl f.place b).cells ↔
      c ∈ b.cells ∨ ∃ e ∈ entries, e.2.2 ≠ 0 ∧ c = cellOf e.1 e.2.1 := by
  induction entries generalizing b with
  | nil => simp
  | cons entry rest ih =>
    obtain ⟨row, column, code⟩ := entry
    have here := mem_cells_place bounded (found _ List.mem_cons_self) (b := b) (c := c)
    have later := ih (fun e member => found e (List.mem_cons_of_mem _ member))
      (b := f.place b (row, column, code))
    rw [List.foldl_cons, later, here, or_assoc]
    simp only [List.mem_cons, exists_eq_or_imp]

theorem mem_cells_board (bounded : f.Bounded) {c : Cell} : c ∈ f.board.cells ↔
    ∃ row column code, f.code? row column = some code ∧ code ≠ 0 ∧ c = cellOf row column := by
  have found : ∀ e ∈ f.entries, f.code? e.1 e.2.1 = some e.2.2 := by
    rintro ⟨row, column, code⟩ member
    exact mem_entries.mp member
  have none : c ∉ (Board.empty f.name).cells := List.not_mem_nil
  rw [board, mem_cells_foldl bounded found, or_iff_right none]
  simp

/-! ## The stage -/

theorem build_eq_ok {stage : Stage} (built : f.build = .ok stage) :
    stage.name = f.name ∧ stage.description = f.description ∧ stage.board = f.board ∧
      f.spawn? f.board = .ok stage.spawn := by
  unfold build at built
  cases shape : f.checkShape with
  | error fault =>
    rw [shape] at built
    cases built
  | ok _ =>
    cases spawn : f.spawn? f.board with
    | error fault =>
      simp only [shape, spawn] at built
      cases built
    | ok pose =>
      simp only [shape, spawn] at built
      cases built
      exact ⟨rfl, rfl, rfl, rfl⟩

/-! ## First entries with a code -/

def IsFirst (f : StageFile) (code : Int32) (row column : Nat) : Prop :=
  f.code? row column = some code ∧ ∀ row' column', f.code? row' column' = some code →
    ¬ Before (row', column', code) (row, column, code)

/-- When one code alone stands for a kind, its tiles are those of the entries with that code. -/
theorem kind?_board {kind : TileKind} (only : ∀ other, f.Codes other kind ↔ other = code)
    (id : TileId) : f.board.kind? id = some kind ↔
      ∃ row column, f.placed[id]? = some (row, column, code) := by
  have made (row column : Nat) (other : Int32) :
      (f.tile? (row, column, other)).map (·.kind) = some kind ↔ other = code := by
    have kinds : (f.tile? (row, column, other)).map (·.kind) = f.kindOf other := by
      rw [tile?, tileOf]
      cases f.kindOf other <;> rfl
    rw [kinds, kindOf_eq_some_iff, only]
  rw [Board.kind?, tile?_board]
  cases there : f.placed[id]? with
  | none => simp
  | some entry =>
    obtain ⟨row, column, other⟩ := entry
    rw [Option.bind_some, made]
    simp

theorem isFirst_board (bounded : f.Bounded) {kind : TileKind} {id : TileId} (tile : IsTileCode code)
    (only : ∀ other, f.Codes other kind ↔ other = code) : f.board.IsFirst kind id ↔
      ∃ row column, f.IsFirst code row column ∧
        f.board.tileAt? (cellOf row column) = some id := by
  simp only [Board.IsFirst, ne_eq, kind?_board only]
  constructor
  · rintro ⟨⟨row, column, there⟩, first⟩
    refine ⟨row, column, ⟨(mem_placed.mp (List.mem_of_getElem? there)).1, ?_⟩,
      tileAt?_board bounded there⟩
    intro row' column' found before
    obtain ⟨other, there'⟩ := exists_number found tile
    -- An entry before this one would have a smaller number.
    rcases Nat.lt_trichotomy other id with less | rfl | greater
    · exact first other less ⟨row', column', there'⟩
    · rw [Option.some.inj (there'.symm.trans there)] at before
      exact not_before_self _ before
    · exact before.asymm (before_of_lt greater there there')
  · rintro ⟨row, column, ⟨found, first⟩, at'⟩
    obtain ⟨other, there⟩ := exists_number found tile
    obtain rfl : other = id := Option.some.inj ((tileAt?_board bounded there).symm.trans at')
    refine ⟨⟨row, column, there⟩, ?_⟩
    rintro earlier less ⟨row', column', there'⟩
    have found' := (mem_placed.mp (List.mem_of_getElem? there')).1
    exact first row' column' found' (before_of_lt less there' there)

end StageFile
end Tilewalk
