import Tilewalk.Authoring

/-! What authoring can make of a tile. An accepted edit changes the kind of one tile within what the tile's
rule lets it become, and so does a series of edits. -/

set_option autoImplicit false

namespace Tilewalk

namespace TileKind

/-- The kinds differ at most in these parts of a gem or a gate. -/
def SameBut (register operation value : Bool) : TileKind → TileKind → Prop
  | .gem r o n, .gem r' o' n' =>
    (r' = r ∨ register = true) ∧ (o' = o ∨ operation = true) ∧ (n' = n ∨ value = true)
  | .gate r c n, .gate r' c' n' =>
    (r' = r ∨ register = true) ∧ (c' = c ∨ operation = true) ∧ (n' = n ∨ value = true)
  | kind, kind' => kind' = kind

variable {register operation value : Bool} {kind kind' kind'' : TileKind}

@[simp] theorem SameBut.refl (register operation value : Bool) (kind : TileKind) :
    kind.SameBut register operation value kind := by
  cases kind <;> simp [SameBut]

theorem eq_or_trans {α : Type} {a b c : α} {allowed : Prop} (first : b = a ∨ allowed)
    (second : c = b ∨ allowed) : c = a ∨ allowed := by
  rcases second with rfl | granted
  · exact first
  · exact .inr granted

theorem SameBut.trans (first : kind.SameBut register operation value kind')
    (second : kind'.SameBut register operation value kind'') :
    kind.SameBut register operation value kind'' := by
  cases kind with
  | gem r o n =>
    cases kind' with
    | gem r' o' n' =>
      cases kind'' with
      | gem r'' o'' n'' =>
        exact ⟨eq_or_trans first.1 second.1, eq_or_trans first.2.1 second.2.1,
          eq_or_trans first.2.2 second.2.2⟩
      | _ => cases second
    | _ => cases first
  | gate r c n =>
    cases kind' with
    | gate r' c' n' =>
      cases kind'' with
      | gate r'' c'' n'' =>
        exact ⟨eq_or_trans first.1 second.1, eq_or_trans first.2.1 second.2.1,
          eq_or_trans first.2.2 second.2.2⟩
      | _ => cases second
    | _ => cases first
  | _ =>
    cases first
    exact second

theorem SameBut.ctorIdx_eq (same : kind.SameBut register operation value kind') :
    kind'.ctorIdx = kind.ctorIdx := by
  cases kind with
  | gem => cases kind' with
    | gem => rfl
    | _ => cases same
  | gate => cases kind' with
    | gate => rfl
    | _ => cases same
  | _ =>
    cases same
    rfl

end TileKind

namespace EditRule

def Fits : EditRule → TileKind → Prop
  | .arrow _, .arrow _ => True
  | .fields .., .gem .. => True
  | .fields .., .gate .. => True
  | _, _ => False

inductive Lets : EditRule → TileKind → TileKind → Prop
  | keeps {rule : EditRule} {kind : TileKind} : Lets rule kind kind
  | points {forbidden : Option Direction} {d d' : Direction} : forbidden ≠ some d' →
      Lets (.arrow forbidden) (.arrow d) (.arrow d')
  | fields {r o v : Bool} {kind kind' : TileKind} : kind.SameBut r o v kind' →
      Lets (.fields r o v) kind kind'

variable {rule : EditRule} {kind kind' kind'' : TileKind}

theorem Lets.trans (first : rule.Lets kind kind') (second : rule.Lets kind' kind'') :
    rule.Lets kind kind'' := by
  cases second with
  | keeps => exact first
  | points allowed =>
    cases first with
    | keeps => exact .points allowed
    | points => exact .points allowed
  | fields later =>
    cases first with
    | keeps => exact .fields later
    | fields earlier => exact .fields (earlier.trans later)

theorem Lets.ctorIdx_eq (lets : rule.Lets kind kind') : kind'.ctorIdx = kind.ctorIdx := by
  cases lets with
  | keeps => rfl
  | points => rfl
  | fields same => exact same.ctorIdx_eq

theorem Lets.eq_of_locked (lets : Lets .locked kind kind') : kind' = kind := by
  cases lets
  rfl

theorem Lets.eq_of_not_fits (lets : rule.Lets kind kind') (unfit : ¬ rule.Fits kind) :
    kind' = kind := by
  cases lets with
  | keeps => rfl
  | points => exact absurd trivial unfit
  | fields same =>
    cases kind with
    | gem => exact absurd trivial unfit
    | gate => exact absurd trivial unfit
    | _ => exact same

theorem Lets.sameBut {r o v : Bool} (lets : Lets (.fields r o v) kind kind') :
    kind.SameBut r o v kind' := by
  cases lets with
  | keeps => exact .refl r o v kind
  | fields same => exact same

theorem Lets.arrow {forbidden : Option Direction} {d : Direction}
    (lets : Lets (.arrow forbidden) (.arrow d) kind') :
    ∃ d', kind' = .arrow d' ∧ (d' = d ∨ forbidden ≠ some d') := by
  cases lets with
  | keeps => exact ⟨d, rfl, .inl rfl⟩
  | points allowed => exact ⟨_, rfl, .inr allowed⟩

end EditRule

namespace Edit

def result? (e : Edit) (forbidden : Option Direction) (kind : TileKind) : Option TileKind :=
  match e, kind with
  | setDirection d, .arrow _ => some (.arrow d)
  | rotate, .arrow d => some (.arrow (nextAllowed forbidden d))
  | e, kind => e.change? kind

/-- The heading that an edit names, which may be the forbidden one. -/
def direction? : Edit → Option Direction
  | setDirection d => some d
  | _ => none

/-- What every edit makes of a tile: the kind is checked before the rule, and a named heading last. -/
def onTile (e : Edit) (id : TileId) (t : Tile) : Except EditError TileKind :=
  match e.result? t.edit.forbidden t.kind with
  | none => .error (.wrongKind id t.kind.label)
  | some kind =>
    if t.edit.opens e.field then
      match e.direction? with
      | some d =>
        if t.edit.forbidden = some d then .error (.forbiddenDirection id d) else .ok kind
      | none => .ok kind
    else .error (.locked id)

variable {e : Edit} {id : TileId} {t : Tile} {kind : TileKind}

theorem nextAllowed_ne (forbidden : Option Direction) (d : Direction) :
    forbidden ≠ some (nextAllowed forbidden d) := by
  unfold nextAllowed
  split
  · next blocked =>
    rw [blocked]
    intro same
    exact Direction.clockwise_ne d.clockwise (Option.some.inj same).symm
  · next free => exact free

theorem onTile_eq_ok (accepted : e.onTile id t = .ok kind) :
    e.result? t.edit.forbidden t.kind = some kind ∧ t.edit.opens e.field = true ∧
      ∀ d, e.direction? = some d → t.edit.forbidden ≠ some d := by
  unfold onTile at accepted
  split at accepted
  · cases accepted
  · next result =>
    split at accepted
    · next opened =>
      split at accepted
      · next d aims =>
        split at accepted
        · cases accepted
        · next free =>
          cases accepted
          refine ⟨result, opened, fun d' aims' => ?_⟩
          cases aims.symm.trans aims'
          exact free
      · next aimless =>
        cases accepted
        exact ⟨result, opened, fun d aims => by cases aimless.symm.trans aims⟩
    · cases accepted

theorem result?_arrow {forbidden : Option Direction} {old : TileKind} (aims : e.field = .direction)
    (result : e.result? forbidden old = some kind)
    (free : ∀ d, e.direction? = some d → forbidden ≠ some d) :
    ∃ d d', old = .arrow d ∧ kind = .arrow d' ∧ forbidden ≠ some d' := by
  cases e with
  | setDirection d' =>
    cases old with
    | arrow d =>
      cases result
      exact ⟨d, d', rfl, rfl, free d' rfl⟩
    | _ => cases result
  | rotate =>
    cases old with
    | arrow d =>
      cases result
      exact ⟨d, _, rfl, rfl, nextAllowed_ne forbidden d⟩
    | _ => cases result
  | _ => cases aims

theorem result?_sameBut {forbidden : Option Direction} {old : TileKind} {r o v : Bool}
    (opened : (EditRule.fields r o v).opens e.field = true)
    (result : e.result? forbidden old = some kind) : old.SameBut r o v kind := by
  cases e <;> cases old <;> cases result <;> simp_all [TileKind.SameBut, field, EditRule.opens]

theorem onTile_lets (accepted : e.onTile id t = .ok kind) :
    t.edit.Lets t.kind kind ∧ ∀ d, t.edit.forbidden = some d → kind ≠ .arrow d := by
  obtain ⟨result, opened, free⟩ := onTile_eq_ok accepted
  cases rule : t.edit with
  | locked =>
    rw [rule] at opened
    cases opened
  | arrow forbidden =>
    rw [rule] at opened result free
    have aims : e.field = .direction := by
      cases aim : e.field with
      | direction => rfl
      | _ => rw [aim] at opened; cases opened
    obtain ⟨d, d', old, rfl, allowed⟩ := result?_arrow aims result free
    rw [old]
    refine ⟨.points allowed, ?_⟩
    rintro d'' forbids same
    cases same
    exact allowed forbids
  | fields r o v =>
    rw [rule] at opened
    exact ⟨.fields (result?_sameBut opened result), fun d forbids => by cases forbids⟩

end Edit

namespace World

variable {w : World} {id : TileId} {e : Edit} {t : Tile}

theorem setDirection_of_editable (d : Direction) (editable : w.editable id = .ok t) :
    w.setDirection id d = ((Edit.setDirection d).onTile id t).map (w.giveKind id) := by
  rw [setDirection, editable]
  obtain ⟨kind, position, cell, rule⟩ := t
  cases kind with
  | arrow d' => cases rule with
    | arrow forbidden =>
      by_cases blocked : forbidden = some d <;>
        simp [bind, Except.bind, Edit.onTile, Edit.result?, Edit.direction?, Edit.field,
          EditRule.opens, EditRule.forbidden, Except.map, blocked]
    | _ => rfl
  | _ => rfl

/-- Turning an arrow checks its rule twice, and the second check never meets the forbidden heading. -/
theorem rotate_of_editable (editable : w.editable id = .ok t) :
    w.rotate id = (Edit.rotate.onTile id t).map (w.giveKind id) := by
  have points := fun d => setDirection_of_editable d editable
  rw [rotate, editable]
  obtain ⟨kind, position, cell, rule⟩ := t
  cases kind with
  | arrow d => cases rule with
    | arrow forbidden =>
      have passed := Edit.nextAllowed_ne forbidden d
      refine (points (Edit.nextAllowed forbidden d)).trans ?_
      simp [Edit.onTile, Edit.result?, Edit.direction?, Edit.field, EditRule.opens,
        EditRule.forbidden, passed]
    | _ => rfl
  | _ => rfl

theorem editField_of_editable (aimless : e.field ≠ .direction) (editable : w.editable id = .ok t) :
    w.editField id e = (e.onTile id t).map (w.giveKind id) := by
  have result : e.result? t.edit.forbidden t.kind = e.change? t.kind := by
    cases e <;> first | rfl | exact absurd rfl aimless
  have names : e.direction? = none := by
    cases e <;> first | rfl | exact absurd rfl aimless
  rw [editField, editable, Edit.onTile, result, names]
  simp only [bind, Except.bind]
  cases e.change? t.kind with
  | none => rfl
  | some kind => cases t.edit.opens e.field <;> rfl

/-- Any edit of a world is the edit of one tile, which is then the only thing that changes. -/
theorem edit_of_editable (e : Edit) (editable : w.editable id = .ok t) :
    w.edit id e = (e.onTile id t).map (w.giveKind id) := by
  cases e with
  | setDirection d => exact setDirection_of_editable d editable
  | rotate => exact rotate_of_editable editable
  | _ => exact editField_of_editable nofun editable

theorem edit_of_not_editable {cause : EditError} (refused : w.editable id = .error cause) (e : Edit) :
    w.edit id e = .error cause := by
  cases e <;> simp [edit, setDirection, rotate, editField, refused, bind, Except.bind]

theorem edit_of_running (running : w.phase = .running) (id : TileId) (e : Edit) :
    w.edit id e = .error .notEditing := by
  refine edit_of_not_editable ?_ e
  simp [editable, running]

theorem edit_of_missing (editing : w.phase = .editing) (missing : w.board.tiles.length ≤ id)
    (e : Edit) : w.edit id e = .error (.noSuchTile id) := by
  refine edit_of_not_editable ?_ e
  simp [editable, editing, Board.tile?, missing]

theorem editable_of_found (editing : w.phase = .editing) (found : w.board.tile? id = some t) :
    w.editable id = .ok t := by
  simp [editable, editing, found]

theorem editable_eq_ok (editable : w.editable id = .ok t) :
    w.phase = .editing ∧ w.board.tile? id = some t := by
  unfold World.editable at editable
  split at editable
  · cases editable
  · cases editable
  · next editing found =>
    cases editable
    exact ⟨editing, found⟩

theorem editable_eq_error {cause : EditError} (refused : w.editable id = .error cause) :
    cause = .notEditing ∨ cause = .noSuchTile id := by
  unfold World.editable at refused
  split at refused
  · cases refused
    exact .inl rfl
  · cases refused
    exact .inr rfl
  · cases refused

theorem edit_eq_ok {u : World} {event : Event} (accepted : w.edit id e = .ok (event, u)) :
    ∃ t kind, w.phase = .editing ∧ w.board.tile? id = some t ∧ e.onTile id t = .ok kind ∧
      event = .tileEdited id ∧ u = { w with board := w.board.setKind id kind } := by
  cases checked : w.editable id with
  | error cause =>
    rw [edit_of_not_editable checked] at accepted
    cases accepted
  | ok t =>
    obtain ⟨editing, found⟩ := editable_eq_ok checked
    rw [edit_of_editable e checked] at accepted
    cases verdict : e.onTile id t with
    | error cause =>
      rw [verdict] at accepted
      cases accepted
    | ok kind =>
      rw [verdict] at accepted
      cases accepted
      exact ⟨t, kind, editing, found, verdict, rfl, rfl⟩

end World

namespace Board

theorem tile?_setKind (b : Board) (id other : TileId) (kind : TileKind) :
    (b.setKind id kind).tile? other
      = if id = other then (b.tile? other).map ({ · with kind := kind }) else b.tile? other := by
  simp only [tile?, setKind, List.getElem?_modify]
  split
  · rfl
  · simp

/-- What edits made of a loaded board, where `edited` are the tiles that were edited. -/
structure Authored (loaded : Board) (edited : TileId → Prop) (b : Board) : Prop where
  name : b.name = loaded.name
  cells : b.cells = loaded.cells
  teleports : b.teleports = loaded.teleports
  size : b.tiles.length = loaded.tiles.length
  tiles : ∀ id t, loaded.tile? id = some t → ∃ kind, b.tile? id = some { t with kind := kind } ∧
    t.edit.Lets t.kind kind ∧ (¬ edited id → kind = t.kind) ∧
    (edited id → ∀ d, t.edit.forbidden = some d → kind ≠ .arrow d)

theorem authored_self (b : Board) : b.Authored (fun _ => False) b where
  name := rfl
  cells := rfl
  teleports := rfl
  size := rfl
  tiles := fun _ t found => ⟨t.kind, found, .keeps, fun _ => rfl, False.elim⟩

variable {loaded b : Board} {edited : TileId → Prop}

theorem Authored.exists_loaded (authored : loaded.Authored edited b) {id : TileId} {t : Tile}
    (found : b.tile? id = some t) : ∃ t', loaded.tile? id = some t' ∧ t.position = t'.position ∧
      t.cell = t'.cell := by
  have bound : id < b.tiles.length := (List.getElem?_eq_some_iff.mp found).1
  rw [authored.size] at bound
  have first : loaded.tile? id = some loaded.tiles[id] := List.getElem?_eq_getElem bound
  obtain ⟨kind, now, -⟩ := authored.tiles id _ first
  cases now.symm.trans found
  exact ⟨_, first, rfl, rfl⟩

theorem Authored.positions (authored : loaded.Authored edited b) :
    b.tiles.map (·.position) = loaded.tiles.map (·.position) := by
  refine List.ext_getElem? fun id => ?_
  rw [List.getElem?_map, List.getElem?_map]
  cases first : loaded.tiles[id]? with
  | none =>
    have beyond : b.tiles[id]? = none := by
      rw [List.getElem?_eq_none_iff, authored.size]
      exact List.getElem?_eq_none_iff.mp first
    rw [beyond]
  | some t =>
    obtain ⟨kind, now, -⟩ := authored.tiles id t first
    exact congrArg (Option.map (·.position)) now

theorem Authored.setKind (authored : loaded.Authored edited b) {e : Edit} {id : TileId} {t : Tile}
    {kind : TileKind} (found : b.tile? id = some t) (accepted : e.onTile id t = .ok kind) :
    loaded.Authored (fun other => edited other ∨ other = id) (b.setKind id kind) where
  name := authored.name
  cells := authored.cells
  teleports := authored.teleports
  size := by rw [← authored.size, Board.setKind, List.length_modify]
  tiles := by
    intro other t' first
    obtain ⟨old, now, lets, untouched, free⟩ := authored.tiles other t' first
    rw [tile?_setKind]
    by_cases same : id = other
    · subst same
      rw [now] at found
      cases found
      obtain ⟨next, allowed⟩ := Edit.onTile_lets accepted
      exact ⟨kind, by simp [now], lets.trans next, fun untold => absurd (.inr rfl) untold,
        fun _ => allowed⟩
    · rw [if_neg same]
      refine ⟨old, now, lets, fun untold => untouched (fun before => untold (.inl before)), ?_⟩
      rintro (before | here)
      · exact free before
      · exact absurd here.symm same

end Board
end Tilewalk
