import Tilewalk.Proofs.Stage.Layout

/-! Loading stage files: which of them become stages, and which stage each of these describes. -/

set_option autoImplicit false

namespace Tilewalk

def Notice.isMissing : Notice → Bool
  | missingEntry .. => true
  | _ => false

namespace StageFile

variable {f : StageFile}

/-! ## Notices -/

def warning (f : StageFile) (code : Int32) : Notice :=
  .missingEntry f.name (if code ≤ 29 then .gem else .gate) code

theorem missingEntry?_eq (f : StageFile) (code : Int32) :
    f.missingEntry? code = if f.Unconfigured code then some (f.warning code) else none := by
  have gems : (f.gems.all fun e => decide (e.code ≠ code)) = true ↔ ∀ e ∈ f.gems, e.code ≠ code := by
    simp
  have gates : (f.gates.all fun e => decide (e.code ≠ code)) = true ↔
      ∀ e ∈ f.gates, e.code ≠ code := by
    simp
  unfold missingEntry? warning
  simp only [gems, gates]
  by_cases missing : f.Unconfigured code
  · rw [if_pos missing]
    rcases missing with ⟨within, none⟩ | ⟨within, none⟩
    · rw [if_pos ⟨within.1, within.2, none⟩, if_pos within.2]
    · have above : ¬ code ≤ 29 := by grind
      rw [if_neg fun gem => above gem.2.1, if_pos ⟨within.1, within.2, none⟩, if_neg above]
  · rw [if_neg missing, if_neg fun gem => missing (.inl ⟨⟨gem.1, gem.2.1⟩, gem.2.2⟩),
      if_neg fun gate => missing (.inr ⟨⟨gate.1, gate.2.1⟩, gate.2.2⟩)]

theorem placeNotices_missing (f : StageFile) (b : Board) (row column : Nat) (code : Int32) :
    (f.placeNotices b (row, column, code)).filter Notice.isMissing
      = if f.Unconfigured code then [f.warning code] else [] := by
  have conflicts (told : List TeleportConflict) :
      (told.map Notice.teleportConflict).filter Notice.isMissing = [] := by
    simp [Notice.isMissing]
  rw [placeNotices, List.filter_append, conflicts, List.append_nil, missingEntry?_eq]
  split <;> rfl

theorem foldl_missing (f : StageFile) (entries : List (Nat × Nat × Int32)) (b : Board)
    (told : List Notice) :
    (entries.foldl (fun (b, told) entry => (f.place b entry, told ++ f.placeNotices b entry))
        (b, told)).2.filter Notice.isMissing
      = told.filter Notice.isMissing
        ++ (entries.filter fun (_, _, code) => f.Unconfigured code).map
          fun (_, _, code) => f.warning code := by
  induction entries generalizing b told with
  | nil => simp
  | cons entry rest ih =>
    obtain ⟨row, column, code⟩ := entry
    -- Whatever else is told of an entry is a conflict of destinations.
    rw [List.foldl_cons, ih, List.filter_append, placeNotices_missing, List.append_assoc]
    by_cases missing : f.Unconfigured code
    · simp [missing]
    · simp [missing]

theorem notices_missing (f : StageFile) : f.notices.filter Notice.isMissing
    = (f.placed.filter fun (_, _, code) => f.Unconfigured code).map
        fun (_, _, code) => f.warning code := by
  have tiles : (f.placed.filter fun (_, _, code) => f.Unconfigured code)
      = f.entries.filter fun (_, _, code) => f.Unconfigured code := by
    rw [placed, List.filter_filter]
    refine List.filter_congr ?_
    rintro ⟨row, column, code⟩ -
    -- Such a code is a tile's.
    have tile : f.Unconfigured code → IsTileCode code := by
      unfold Unconfigured IsTileCode
      grind
    simpa using tile
  rw [tiles, notices, foldl_missing]
  rfl

/-! ## Faults -/

theorem codes_start {code : Int32} : f.Codes code .start ↔ code = 2 := by
  constructor
  · intro codes
    cases codes
    rfl
  · rintro rfl
    exact .start

theorem codes_destination {code : Int32} {group : UInt8} (within : group < 10) :
    f.Codes code (.teleport group .destination) ↔ code = 10 + .ofNat group.toNat := by
  constructor
  · intro codes
    cases codes
    rfl
  · rintro rfl
    exact .destination within

theorem hasStart_of_isFirst {row column : Nat} (first : f.IsFirst 2 row column) : f.HasStart :=
  ⟨row, column, first.1⟩

theorem startTile?_board (bounded : f.Bounded) {id : TileId} : f.board.startTile? = some id ↔
    ∃ row column, f.IsFirst 2 row column ∧ f.board.tileAt? (cellOf row column) = some id :=
  Board.startTile?_eq_some.trans (isFirst_board bounded (by decide) fun _ => codes_start)

theorem spawn?_of_not_hasStart (bounded : f.Bounded) (startless : ¬ f.HasStart) :
    f.spawn? f.board = .error (.missingStart f.name) := by
  cases start : f.board.startTile? with
  | none => rw [spawn?, start, Option.bind_none]
  | some id =>
    obtain ⟨row, column, first, -⟩ := (startTile?_board bounded).mp start
    exact absurd (hasStart_of_isFirst first) startless

theorem spawn?_of_hasStart (bounded : f.Bounded) (start : f.HasStart) :
    ∃ row column, f.IsFirst 2 row column ∧
      f.spawn? f.board = .ok ⟨(cellOf row column).center 0.5, .identity⟩ := by
  obtain ⟨row, column, found⟩ := start
  obtain ⟨id, there, t, tile, made⟩ := exists_tile bounded found (by decide)
  have known : f.board.kind? id = some .start := by
    rw [Board.kind?, tile, Option.map_some, Option.some.inj (made.kind.kindOf.symm.trans rfl)]
  obtain ⟨first, least⟩ := Board.exists_first known
  obtain ⟨row, column, earliest, at'⟩ :=
    (startTile?_board bounded).mp (Board.startTile?_eq_some.mpr least)
  obtain ⟨id', there', t', tile', made'⟩ := exists_tile bounded earliest.1 (by decide)
  obtain rfl : first = id' := Option.some.inj (at'.symm.trans there')
  have exact := (bounded.exact earliest.1).2
  refine ⟨row, column, earliest, ?_⟩
  rw [spawn?, Board.startTile?_eq_some.mpr least, Option.bind_some, tile']
  simp only [made'.position, exact.center_add_up]

/-- What becomes of a file: the first fault in the order in which faults are looked for, if any. -/
inductive Verdict (f : StageFile) : Except StageError Unit → Prop where
  | blank : f.Blank → Verdict f (.error (.empty f.name))
  | ragged {row found expected : Nat} : ¬ f.Blank → f.FirstRagged row found expected →
      Verdict f (.error (.raggedMap row found expected))
  | misfit : ¬ f.Blank → f.Even → ¬ f.Fits → Verdict f (.error .editableShape)
  | startless : ¬ f.Blank → f.Even → f.Fits → ¬ f.HasStart → Verdict f (.error (.missingStart f.name))
  | passes : ¬ f.Blank → f.Even → f.Fits → f.HasStart → Verdict f (.ok ())

variable {r : Except StageError Unit}

theorem Verdict.blank_iff (verdict : f.Verdict r) : r = .error (.empty f.name) ↔ f.Blank := by
  cases verdict with
  | blank blank => exact iff_of_true rfl blank
  | _ => exact iff_of_false nofun ‹¬ f.Blank›

theorem Verdict.ragged_iff (verdict : f.Verdict r) (row found expected : Nat) :
    r = .error (.raggedMap row found expected) ↔
      ¬ f.Blank ∧ f.FirstRagged row found expected := by
  cases verdict with
  | blank blank => exact iff_of_false nofun fun faulty => faulty.1 blank
  | ragged full ragged =>
    constructor
    · intro same
      cases same
      exact ⟨full, ragged⟩
    · rintro ⟨-, ragged'⟩
      obtain ⟨rfl, rfl, rfl⟩ := ragged.eq ragged'
      rfl
  | _ => exact iff_of_false nofun fun faulty => ‹f.Even› row found expected faulty.2

theorem Verdict.misfit_iff (verdict : f.Verdict r) :
    r = .error .editableShape ↔ ¬ f.Blank ∧ f.Even ∧ ¬ f.Fits := by
  cases verdict with
  | blank blank => exact iff_of_false nofun fun faulty => faulty.1 blank
  | ragged _ ragged => exact iff_of_false nofun fun faulty => faulty.2.1 _ _ _ ragged
  | misfit full even misfit => exact iff_of_true rfl ⟨full, even, misfit⟩
  | _ => exact iff_of_false nofun fun faulty => faulty.2.2 ‹f.Fits›

theorem Verdict.startless_iff (verdict : f.Verdict r) :
    r = .error (.missingStart f.name) ↔ ¬ f.Blank ∧ f.Even ∧ f.Fits ∧ ¬ f.HasStart := by
  cases verdict with
  | blank blank => exact iff_of_false nofun fun faulty => faulty.1 blank
  | ragged _ ragged => exact iff_of_false nofun fun faulty => faulty.2.1 _ _ _ ragged
  | misfit _ _ misfit => exact iff_of_false nofun fun faulty => misfit faulty.2.2.1
  | startless full even fits startless => exact iff_of_true rfl ⟨full, even, fits, startless⟩
  | passes _ _ _ start => exact iff_of_false nofun fun faulty => faulty.2.2.2 start

theorem Verdict.passes_iff (verdict : f.Verdict r) :
    r = .ok () ↔ ¬ f.Blank ∧ f.Even ∧ f.Fits ∧ f.HasStart := by
  cases verdict with
  | blank blank => exact iff_of_false nofun fun sound => sound.1 blank
  | ragged _ ragged => exact iff_of_false nofun fun sound => sound.2.1 _ _ _ ragged
  | misfit _ _ misfit => exact iff_of_false nofun fun sound => misfit sound.2.2.1
  | startless _ _ _ startless => exact iff_of_false nofun fun sound => startless sound.2.2.2
  | passes full even fits start => exact iff_of_true rfl ⟨full, even, fits, start⟩

theorem verdict_build (bounded : f.Bounded) : f.Verdict (f.build.map fun _ => ()) := by
  unfold build checkShape
  -- Each check is made only when those before it have gone through.
  split
  · next none => exact .blank (width?_eq_none.mp none)
  · next width known =>
    have full : ¬ f.Blank := fun blank => by
      cases known.symm.trans (width?_eq_none.mpr blank)
    split
    · next row found ragged => exact .ragged full (raggedRow?_eq_some known ragged)
    · next none =>
      have lengths := length_of_raggedRow?_eq_none none
      have even := even_of_length known lengths
      split
      · next fits =>
        have fitting := (editableFits_iff lengths).mp fits
        by_cases start : f.HasStart
        · obtain ⟨row, column, -, spawn⟩ := spawn?_of_hasStart bounded start
          simp only [spawn]
          exact .passes full even fitting start
        · simp only [spawn?_of_not_hasStart bounded start]
          exact .startless full even fitting start
      · next misfit =>
        exact .misfit full even fun fitting => misfit ((editableFits_iff lengths).mpr fitting)

/-! ## The stage that a file describes -/

def editCode? (f : StageFile) (row column : Nat) : Option Int32 :=
  f.editable[row]?.bind (·[column]?)

/-- The entries of the map that stand for tiles, row by row and from left to right. -/
structure Lists (f : StageFile) (placed : List (Nat × Nat × Int32)) : Prop where
  order : placed.Pairwise Before
  entries : ∀ row column code, (row, column, code) ∈ placed ↔
    f.code? row column = some code ∧ IsTileCode code

/-- The tile is made as the file has it for an entry of the map. -/
structure Makes (f : StageFile) (row column : Nat) (code : Int32) (t : Tile) : Prop where
  kind : f.Codes code t.kind
  position : t.position = t.cell.center 0
  cell : t.cell.IsAt row column
  locked : f.editable = [] → t.edit = .locked
  edit : f.editable ≠ [] → ∃ e, f.editCode? row column = some e ∧ t.edit = .ofCode e t.kind

/-- The stage, and what is told on loading it, are as the file has them. -/
structure Describes (f : StageFile) (stage : Stage) (told : List Notice) : Prop where
  name : stage.name = f.name ∧ stage.board.name = f.name
  description : stage.description = f.description
  cells : ∀ c, c ∈ stage.board.cells ↔
    ∃ row column code, f.code? row column = some code ∧ code ≠ 0 ∧ c.IsAt row column
  tiles : ∃ placed, f.Lists placed ∧ stage.board.tiles.length = placed.length ∧
    (∀ id row column code, placed[id]? = some (row, column, code) →
      ∃ t, stage.board.tile? id = some t ∧ f.Makes row column code t ∧
        stage.board.tileAt? t.cell = some id) ∧
    told.filter Notice.isMissing = (placed.filter fun (_, _, code) => f.Unconfigured code).map
      fun (_, _, code) => f.warning code
  destinations : ∀ group id, stage.board.teleports.destination group = some id ↔
    group < 10 ∧ ∃ (row column : Nat) (c : Cell),
      f.IsFirst (10 + .ofNat group.toNat) row column ∧ c.IsAt row column ∧
        stage.board.tileAt? c = some id
  spawn : ∃ (row column : Nat) (c : Cell), f.IsFirst 2 row column ∧ c.IsAt row column ∧
    stage.spawn = ⟨c.center 0.5, .identity⟩

theorem editCode?_of_fits {row column : Nat} {code : Int32} (fits : f.Fits)
    (editable : f.editable ≠ []) (found : f.code? row column = some code) :
    ∃ e, f.editCode? row column = some e := by
  have shape := fits.resolve_left editable
  obtain ⟨codes, there, entry⟩ := Option.bind_eq_some_iff.mp found
  have length : (f.editable.map (·.length))[row]? = some codes.length := by
    rw [shape, List.getElem?_map, there, Option.map_some]
  rw [List.getElem?_map] at length
  obtain ⟨edits, there', same⟩ := Option.map_eq_some_iff.mp length
  have bound : column < edits.length := by
    rw [same]
    exact (List.getElem?_eq_some_iff.mp entry).1
  exact ⟨edits[column], by rw [editCode?, there', Option.bind_some, List.getElem?_eq_getElem bound]⟩

theorem TileFor.makes (bounded : f.Bounded) (fits : f.Fits) {row column : Nat} {code : Int32}
    {t : Tile} (found : f.code? row column = some code) (tile : f.TileFor row column code t) :
    f.Makes row column code t where
  kind := tile.kind
  position := by rw [tile.position, tile.cell]
  cell := by
    rw [tile.cell]
    exact (bounded.exact found).1
  locked := by
    intro none
    rw [tile.edit, editRuleOf, none]
    rfl
  edit := by
    intro editable
    obtain ⟨e, known⟩ := editCode?_of_fits fits editable found
    refine ⟨e, known, ?_⟩
    rw [tile.edit, editRuleOf]
    simp only [show f.editable[row]?.bind (·[column]?) = some e from known]

theorem describes_board (bounded : f.Bounded) (fits : f.Fits) {stage : Stage}
    (name : stage.name = f.name) (description : stage.description = f.description)
    (board : stage.board = f.board) (spawn : f.spawn? f.board = .ok stage.spawn) :
    f.Describes stage f.notices := by
  constructor
  case name => exact ⟨name, by simp [board]⟩
  case description => exact description
  case cells =>
    intro c
    rw [board, mem_cells_board bounded]
    constructor
    · rintro ⟨row, column, code, found, coded, same⟩
      exact ⟨row, column, code, found, coded, (bounded.eq_cellOf_iff found).mp same⟩
    · rintro ⟨row, column, code, found, coded, here⟩
      exact ⟨row, column, code, found, coded, (bounded.eq_cellOf_iff found).mpr here⟩
  case tiles =>
    refine ⟨f.placed, ⟨f.placed_pairwise, fun _ _ _ => mem_placed⟩, ?_, ?_, f.notices_missing⟩
    · rw [board, length_tiles_board]
    · intro id row column code there
      obtain ⟨t, found, tile⟩ := exists_tileFor bounded there
      have entry := (mem_placed.mp (List.mem_of_getElem? there)).1
      refine ⟨t, by rw [board, found], tile.makes bounded fits entry, ?_⟩
      rw [board, tile.cell]
      exact tileAt?_board bounded there
  case destinations =>
    intro group id
    rw [board, f.built_board.sound.destination]
    refine and_congr_right fun within => ?_
    have tile : IsTileCode (10 + .ofNat group.toNat) :=
      isTileCode_iff.mpr ⟨_, (kindOf_digit (f := f) within).1⟩
    rw [isFirst_board bounded tile fun _ => codes_destination within]
    constructor
    · rintro ⟨row, column, first, at'⟩
      exact ⟨row, column, _, first, (bounded.exact first.1).1, at'⟩
    · rintro ⟨row, column, c, first, here, at'⟩
      rw [(bounded.eq_cellOf_iff first.1).mpr here] at at'
      exact ⟨row, column, first, at'⟩
  case spawn =>
    have start : f.HasStart := by
      refine Classical.byContradiction fun startless => ?_
      cases spawn.symm.trans (spawn?_of_not_hasStart bounded startless)
    obtain ⟨row, column, first, made⟩ := spawn?_of_hasStart bounded start
    exact ⟨row, column, _, first, (bounded.exact first.1).1,
      Except.ok.inj (spawn.symm.trans made)⟩

theorem describes_build (bounded : f.Bounded) (fits : f.Fits) {stage : Stage}
    (built : f.build = .ok stage) : f.Describes stage f.notices := by
  obtain ⟨name, description, board, spawn⟩ := build_eq_ok built
  exact describes_board bounded fits name description board spawn

/-- A file whose map is well shaped and has a start, and no other, becomes the stage that it describes;
any other is turned down for its first fault. -/
theorem builds_what_it_describes (bounded : f.Bounded) :
    (f.build = .error (.empty f.name) ↔ f.Blank) ∧
    (∀ row found expected, f.build = .error (.raggedMap row found expected) ↔
      ¬ f.Blank ∧ f.FirstRagged row found expected) ∧
    (f.build = .error .editableShape ↔ ¬ f.Blank ∧ f.Even ∧ ¬ f.Fits) ∧
    (f.build = .error (.missingStart f.name) ↔
      ¬ f.Blank ∧ f.Even ∧ f.Fits ∧ ¬ f.HasStart) ∧
    ((∃ stage, f.build = .ok stage) ↔ ¬ f.Blank ∧ f.Even ∧ f.Fits ∧ f.HasStart) ∧
    (∀ stage, f.build = .ok stage → f.Describes stage f.notices) ∧
    ∀ text, parse text = .ok f → Stage.parse text = f.build.map fun stage => (stage, f.notices) := by
  have verdict := verdict_build bounded
  have fails (e : StageError) : f.build = .error e ↔ (f.build.map fun _ => ()) = .error e := by
    cases f.build <;> simp [Except.map]
  have passes : (∃ stage, f.build = .ok stage) ↔ (f.build.map fun _ => ()) = .ok () := by
    cases f.build <;> simp [Except.map]
  refine ⟨?_, ?_, ?_, ?_, ?_, ?_, ?_⟩
  · rw [fails, verdict.blank_iff]
  · intro row found expected
    rw [fails, verdict.ragged_iff]
  · rw [fails, verdict.misfit_iff]
  · rw [fails, verdict.startless_iff]
  · rw [passes, verdict.passes_iff]
  · intro stage built
    obtain ⟨-, -, fits, -⟩ := verdict.passes_iff.mp (passes.mp ⟨stage, built⟩)
    exact describes_build bounded fits built
  · intro text read
    rw [Stage.parse, read]
    rfl

def twoRows : StageFile where
  name := "two rows"
  description := ""
  map := [[14, 1, 21, 22], [2, 14, 94, 0]]
  editable := [[0, 0, 12, 0], [0, 0, 0, 0]]
  gems := [⟨21, .sapphire, .multiply, 4⟩]
  gates := []

theorem two_rows_become_a_stage : ∃ stage, twoRows.build = .ok stage ∧
    twoRows.Describes stage twoRows.notices ∧ stage.spawn = ⟨⟨0, 0.5, -1⟩, .identity⟩ ∧
    stage.board.teleports.destination 4 = some 0 := by
  have bounded : twoRows.Bounded := ⟨by decide, by decide⟩
  have even : twoRows.Even := @even_of_length twoRows 4 rfl (by decide)
  obtain ⟨-, -, -, -, builds, describes, -⟩ := builds_what_it_describes bounded
  obtain ⟨stage, built⟩ := builds.mpr ⟨by simp [Blank, twoRows], even, .inr rfl, 1, 0, rfl⟩
  have shows : twoRows.build.toOption.any (fun stage =>
      decide (stage.spawn = ⟨⟨0, 0.5, -1⟩, .identity⟩) &&
      decide (stage.board.teleports.destination 4 = some 0)) = true := by
    decide +kernel
  rw [built] at shows
  obtain ⟨spawn, destination⟩ := Bool.and_eq_true_iff.mp shows
  exact ⟨stage, built, describes stage built, of_decide_eq_true spawn, of_decide_eq_true destination⟩

end StageFile
end Tilewalk
