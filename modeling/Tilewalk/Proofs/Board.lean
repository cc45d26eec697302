import Mathlib.Data.Nat.Find
import Tilewalk.Board

/-! Boards built from nothing by adding tiles and floor. The registry of teleports knows the first
destination of each group, and there is floor under every tile. -/

set_option autoImplicit false

namespace Tilewalk

namespace Teleports

@[simp] theorem destination_none (group : UInt8) : none.destination group = .none := by
  rw [none, destination, Vector.getElem?_replicate]
  split <;> rfl

theorem destination_register {t u : Teleports} {group : UInt8} {tile : TileId}
    (made : t.register group tile = .ok u) (other : UInt8) :
    u.destination other = if other = group ∧ group < 10 then some tile else t.destination other := by
  unfold register at made
  split at made
  · cases made
  · cases made
    have inside : group < 10 ↔ group.toNat < 10 := UInt8.lt_iff_toNat_lt
    simp only [destination, Vector.getElem?_setIfInBounds, UInt8.toNat_inj, inside]
    grind

end Teleports

namespace Board

/-- Made by adding tiles, each placed on the cell under its position, and floor. -/
inductive Built : Board → Prop
  | empty {name : String} : Built (.empty name)
  | addTile {b : Board} {kind : TileKind} {position : Vec3} {rule : EditRule} : Built b →
      Built (b.addTile { Tile.place kind position with edit := rule })
  | addFloor {b : Board} {cell : Cell} : Built b → Built (b.addFloor cell)

def kind? (b : Board) (id : TileId) : Option TileKind := (b.tile? id).map (·.kind)

def IsFirst (b : Board) (kind : TileKind) (id : TileId) : Prop :=
  b.kind? id = some kind ∧ ∀ other < id, b.kind? other ≠ some kind

theorem exists_first {b : Board} {kind : TileKind} {id : TileId} (found : b.kind? id = some kind) :
    ∃ first, b.IsFirst kind first := by
  have some : ∃ id, b.kind? id = some kind := ⟨id, found⟩
  exact ⟨Nat.find some, Nat.find_spec some, fun _ less => Nat.find_min some less⟩

theorem startTile?_eq_some {b : Board} {id : TileId} :
    b.startTile? = some id ↔ b.IsFirst .start id := by
  rw [startTile?, List.findIdx?_eq_some_iff_getElem]
  simp only [IsFirst, kind?, tile?]
  constructor
  · rintro ⟨bound, start, others⟩
    refine ⟨by simpa [List.getElem?_eq_getElem bound] using start, fun other less found => ?_⟩
    have later := others other less
    rw [List.getElem?_eq_getElem (Nat.lt_trans less bound), Option.map_some] at found
    simp [Option.some.inj found] at later
  · rintro ⟨found, others⟩
    obtain ⟨t, there, start⟩ := Option.map_eq_some_iff.mp found
    obtain ⟨bound, rfl⟩ := List.getElem?_eq_some_iff.mp there
    refine ⟨bound, decide_eq_true start, fun other less there => ?_⟩
    refine others other less ?_
    rw [List.getElem?_eq_getElem (Nat.lt_trans less bound), Option.map_some]
    exact congrArg some (of_decide_eq_true there)

theorem tile?_addTile (b : Board) (t : Tile) (id : TileId) :
    (b.addTile t).tile? id = if id = b.tiles.length then some t else b.tile? id := by
  simp only [tile?, addTile, List.getElem?_append, List.getElem?_singleton]
  grind

theorem kind?_addTile (b : Board) (t : Tile) (id : TileId) :
    (b.addTile t).kind? id = if id = b.tiles.length then some t.kind else b.kind? id := by
  rw [kind?, tile?_addTile]
  split <;> rfl

theorem lt_length_of_kind? {b : Board} {kind : TileKind} {id : TileId}
    (found : b.kind? id = some kind) : id < b.tiles.length := by
  obtain ⟨t, lookup, -⟩ := Option.map_eq_some_iff.mp found
  exact (List.getElem?_eq_some_iff.mp lookup).1

theorem isFirst_addTile {b : Board} {t : Tile} {kind : TileKind} {id : TileId} :
    (b.addTile t).IsFirst kind id ↔ b.IsFirst kind id ∨
      id = b.tiles.length ∧ t.kind = kind ∧ ∀ other, b.kind? other ≠ some kind := by
  simp only [IsFirst, kind?_addTile]
  constructor
  · rintro ⟨found, before⟩
    by_cases last : id = b.tiles.length
    · subst last
      rw [if_pos rfl] at found
      refine .inr ⟨rfl, Option.some.inj found, fun other there => ?_⟩
      have less := lt_length_of_kind? there
      refine before other less ?_
      rwa [if_neg (Nat.ne_of_lt less)]
    · rw [if_neg last] at found
      refine .inl ⟨found, fun other less there => ?_⟩
      have bound := lt_length_of_kind? there
      refine before other less ?_
      rwa [if_neg (Nat.ne_of_lt bound)]
  · rintro (⟨found, before⟩ | ⟨rfl, same, fresh⟩)
    · have bound := lt_length_of_kind? found
      refine ⟨by rwa [if_neg (Nat.ne_of_lt bound)], fun other less => ?_⟩
      rw [if_neg (Nat.ne_of_lt (Nat.lt_trans less bound))]
      exact before other less
    · refine ⟨by rw [if_pos rfl, same], fun other less => ?_⟩
      rw [if_neg (Nat.ne_of_lt less)]
      exact fresh other

/-- The registry knows the first destination of each group, and every tile has floor under it. -/
structure Sound (b : Board) : Prop where
  destination : ∀ group id, b.teleports.destination group = some id ↔
    group < 10 ∧ b.IsFirst (.teleport group .destination) id
  floor : ∀ id t, b.tile? id = some t → t.cell ∈ b.cells
  placed : ∀ id t, b.tile? id = some t → t.cell = .containing t.position

theorem destination_addTile (b : Board) (t : Tile) (group : UInt8) :
    (b.addTile t).teleports.destination group =
      if t.kind = .teleport group .destination ∧ group < 10 ∧ b.teleports.destination group = none then
        some b.tiles.length
      else b.teleports.destination group := by
  cases kind : t.kind with
  | teleport g role =>
    cases role with
    | source => simp [addTile, register, kind]
    | destination =>
      cases made : b.teleports.register g b.tiles.length with
      | error conflict =>
        -- The group has a destination, and keeps it.
        have taken : b.teleports.destination g ≠ none := by
          intro free
          simp [Teleports.register, free] at made
        simp only [addTile, register, kind, made]
        grind
      | ok teleports =>
        have free : b.teleports.destination g = none := by
          unfold Teleports.register at made
          split at made
          · cases made
          · next free => exact free
        have now : (b.addTile t).teleports = teleports := by simp [addTile, register, kind, made]
        rw [now, Teleports.destination_register made]
        grind
  | _ => simp [addTile, register, kind]

theorem Sound.destination_eq_none {b : Board} (sound : b.Sound) {group : UInt8}
    (within : group < 10) : b.teleports.destination group = none ↔
      ∀ id, b.kind? id ≠ some (.teleport group .destination) := by
  constructor
  · intro none id found
    obtain ⟨first, least⟩ := exists_first found
    cases none.symm.trans ((sound.destination group first).mpr ⟨within, least⟩)
  · intro fresh
    cases known : b.teleports.destination group with
    | none => rfl
    | some id => exact absurd ((sound.destination group id).mp known).2.1 (fresh id)

theorem Sound.addTile {b : Board} (sound : b.Sound) {t : Tile}
    (placed : t.cell = .containing t.position) : (b.addTile t).Sound where
  destination := by
    intro group id
    rw [destination_addTile, isFirst_addTile]
    by_cases within : group < 10
    · have free := sound.destination_eq_none within
      have known := sound.destination group id
      grind
    · have known := sound.destination group id
      grind
  floor := by
    intro id t' found
    rw [tile?_addTile] at found
    refine CellSet.mem_insert.mpr ?_
    split at found
    · exact .inl (congrArg Tile.cell (Option.some.inj found)).symm
    · exact .inr (sound.floor id t' found)
  placed := by
    intro id t' found
    rw [tile?_addTile] at found
    split at found
    · exact Option.some.inj found ▸ placed
    · exact sound.placed id t' found

theorem Built.sound {b : Board} (built : b.Built) : b.Sound := by
  induction built with
  | empty =>
    constructor
    case destination =>
      intro group id
      simp [Board.empty, IsFirst, kind?, tile?]
    case floor =>
      intro id t found
      cases found
    case placed =>
      intro id t found
      cases found
  | addTile _ sound => exact sound.addTile rfl
  | addFloor _ sound =>
    exact
      { sound with
        destination := sound.destination
        floor := fun id t found => CellSet.mem_insert.mpr (.inr (sound.floor id t found)) }

end Board
end Tilewalk
