import Tilewalk.Proofs.World.Editing

/-! Teleports in any run. Authoring leaves the ends of teleports alone, so the registry goes on to know
the first destination of each group, and a jump always ends there, over floor. -/

set_option autoImplicit false

namespace Tilewalk

/-- No rule lets a tile become the end of a teleport, or stop being one. -/
theorem EditRule.Lets.teleport_iff {rule : EditRule} {kind kind' : TileKind}
    (lets : rule.Lets kind kind') (group : UInt8) (role : TeleportRole) :
    kind' = .teleport group role ↔ kind = .teleport group role := by
  have same := lets.ctorIdx_eq
  have fixed {g : UInt8} {r : TeleportRole} (old : kind = .teleport g r) : kind' = kind :=
    lets.eq_of_not_fits (by rw [old]; cases rule <;> exact id)
  constructor
  · intro new
    subst new
    cases kind with
    | teleport g r => exact (fixed rfl).symm
    | _ => cases same
  · intro old
    exact (fixed old).trans old

namespace Board

variable {loaded b : Board} {edited : TileId → Prop} {group : UInt8} {role : TeleportRole}
  {id : TileId}

theorem Authored.kind?_teleport (authored : loaded.Authored edited b) (id : TileId) :
    b.kind? id = some (.teleport group role) ↔ loaded.kind? id = some (.teleport group role) := by
  cases first : loaded.tile? id with
  | none =>
    have absent : b.tile? id = none := by
      have bound := List.getElem?_eq_none_iff.mp first
      rw [← authored.size] at bound
      exact List.getElem?_eq_none_iff.mpr bound
    rw [kind?, kind?, first, absent]
  | some t =>
    obtain ⟨kind, now, lets, -⟩ := authored.tiles id t first
    rw [kind?, kind?, first, now, Option.map_some, Option.map_some, Option.some_inj, Option.some_inj]
    exact lets.teleport_iff group role

theorem Sound.authored (sound : loaded.Sound) (authored : loaded.Authored edited b) : b.Sound where
  destination := by
    intro group id
    simp only [IsFirst, authored.teleports, sound.destination, ne_eq, authored.kind?_teleport]
  floor := by
    intro id t found
    obtain ⟨t', first, -, cell⟩ := authored.exists_loaded found
    rw [cell, authored.cells]
    exact sound.floor id t' first
  placed := by
    intro id t found
    obtain ⟨t', first, position, cell⟩ := authored.exists_loaded found
    rw [cell, position]
    exact sound.placed id t' first

theorem Sound.exists_tile (sound : b.Sound) (known : b.teleports.destination group = some id) :
    ∃ t, b.tile? id = some t := by
  obtain ⟨t, found, -⟩ := Option.map_eq_some_iff.mp ((sound.destination group id).mp known).2.1
  exact ⟨t, found⟩

end Board

namespace World

variable {v u : World} {tile : TileId} {event : Event} {group : UInt8}

theorem exit?_eq_none (sound : v.board.Sound) :
    v.exit? group = none ↔ v.board.teleports.destination group = none := by
  cases known : v.board.teleports.destination group with
  | none => simp [exit?, known]
  | some id =>
    obtain ⟨t, found⟩ := sound.exists_tile known
    simp [exit?, known, found]

theorem exit?_eq_some {target : TileId} {position : Vec3}
    (exit : v.exit? group = some (target, position)) :
    v.board.teleports.destination group = some target ∧
      ∃ t, v.board.tile? target = some t ∧ t.position = position := by
  simp only [exit?, Option.bind_eq_bind, Option.bind_eq_some_iff, pure] at exit
  obtain ⟨id, known, t, found, same⟩ := exit
  cases same
  exact ⟨known, t, found, rfl⟩

/-- A jump ends at rest on the destination of the group, over floor. -/
structure Lands (v : World) (target : TileId) (u : World) : Prop where
  target : ∃ t, v.board.tile? target = some t ∧
    u.player.position = ⟨t.position.x, v.player.position.y, t.position.z⟩
  rest : u.player.body.velocity = .zero
  floor : u.board.cells.hasFloorAt u.player.position = true

theorem lands_jump (sound : v.board.Sound) {target : TileId} {t : Tile}
    (found : v.board.tile? target = some t) : v.Lands target (v.jump t.position) where
  target := ⟨t, found, rfl⟩
  rest := rfl
  floor := by
    -- The height above the tile does not matter to the cell.
    have under : Cell.containing (v.jump t.position).player.position = t.cell := by
      rw [sound.placed target t found]
      exact Cell.containing_eq_of_flat_eq rfl rfl
    have inside : Cell.containing (v.jump t.position).player.position ∈ v.board.cells :=
      under ▸ sound.floor target t found
    exact decide_eq_true inside

theorem Acts.lands (sound : v.board.Sound) (acts : Acts v tile event u) {source target : TileId}
    (jumped : event = .teleported source target group) :
    source = tile ∧ v.board.kind? source = some (.teleport group .source) ∧
      v.board.teleports.destination group = some target ∧ v.Lands target u := by
  cases acts with
  | jumps found _ exit =>
    cases jumped
    obtain ⟨known, t, there, rfl⟩ := exit?_eq_some exit
    exact ⟨rfl, found, known, lands_jump sound there⟩
  | _ => cases jumped

theorem dispatch_source (sound : v.board.Sound) (unarmed : v.player.skipArmed = false)
    (found : v.board.kind? tile = some (.teleport group .source)) :
    ((∃ other g, (v.dispatch tile).1 = some (.teleportFailed other g)) ↔
      v.board.teleports.destination group = none) ∧
    (v.board.teleports.destination group = none →
      v.dispatch tile = (some (.teleportFailed tile group), v)) := by
  rw [← exit?_eq_none sound]
  cases exit : v.exit? group with
  | none =>
    have dispatched := (Acts.strands found unarmed exit).dispatch_eq
    exact ⟨iff_of_true ⟨tile, group, by rw [dispatched]⟩ rfl, fun _ => dispatched⟩
  | some place =>
    obtain ⟨target, position⟩ := place
    have dispatched := (Acts.jumps found unarmed exit).dispatch_eq
    refine ⟨iff_of_false ?_ nofun, nofun⟩
    rintro ⟨other, g, failed⟩
    rw [dispatched] at failed
    cases failed

theorem Enters.exists_acts {w : World} {tiles : List TileId} {acts : List (TileId × Event)}
    (enters : Enters w tiles acts u) {act : TileId × Event} (member : act ∈ acts) :
    ∃ v x, SameScene w v ∧ Acts v act.1 act.2 x := by
  -- Acts keep the scene, so a later one is an act in the first scene as well.
  induction enters with
  | done => cases member
  | passed _ _ ih => exact ih member
  | acted _ act _ ih =>
    rcases List.mem_cons.mp member with rfl | later
    · exact ⟨_, _, .refl _, act⟩
    · obtain ⟨v, x, same, acts⟩ := ih later
      exact ⟨v, x, act.sameScene.trans same, acts⟩

theorem Settled.exists_dispatch {w : World} (settled : w.Settled) (running : w.phase = .running)
    {events : List Event} (stepped : w.step = .ok (events, u)) (member : event ∈ events)
    (acted : event.isTile = true) :
    ∃ (v : World) (tile : TileId), v.board = w.board ∧ (v.dispatch tile).1 = some event := by
  obtain ⟨moved, v, acts, last, -, moves, enters, rfl, -⟩ := step_eq_ok running settled.rests stepped
  -- Movement and hand-over tell of no tile, so the event is that of an act.
  have told : event ∈ acts.map (·.2) := by
    rw [← Event.filter_isTile_between moves.aside enters.isTile (aside_handOver last)]
    exact List.mem_filter.mpr ⟨member, acted⟩
  obtain ⟨act, there, rfl⟩ := List.mem_map.mp told
  obtain ⟨x, y, same, acts⟩ := enters.exists_acts there
  exact ⟨x, act.1, same.board.trans moves.sameScene.board, by rw [acts.dispatch_eq]⟩

/-- On a board built tile by tile the registry of teleports stays truthful through every run, there is
floor under every tile, a source without destination does nothing, and any other takes the player to
the first destination of its group, at rest and over floor. -/
theorem teleports_land_on_first_destination {board : Board} {spawn : Pose} {config : SimConfig}
    {words : WordSource} {commands : List Command} {told : List (List Event)} {w : World}
    (built : board.Built) (played : play board spawn config words commands = .ok (told, w)) :
    (∀ group id, w.board.teleports.destination group = some id ↔
      group < 10 ∧ w.board.IsFirst (.teleport group .destination) id) ∧
    (∀ group, w.board.teleports.destination group = none ↔
      10 ≤ group ∨ ∀ id, w.board.kind? id ≠ some (.teleport group .destination)) ∧
    (∀ id t, w.board.tile? id = some t → t.cell ∈ w.board.cells) ∧
    (∀ events u event, w.phase = .running → w.step = .ok (events, u) → event ∈ events →
      event.isTile = true →
      ∃ (v : World) (tile : TileId), v.board = w.board ∧ (v.dispatch tile).1 = some event) ∧
    ∀ (v : World) (tile : TileId), v.board = w.board →
      (∀ source target group u, v.dispatch tile = (some (.teleported source target group), u) →
        v.board.kind? source = some (.teleport group .source) ∧
        v.board.teleports.destination group = some target ∧
        (∃ t, v.board.tile? target = some t ∧ u.player.position.x = t.position.x ∧
          u.player.position.z = t.position.z) ∧
        u.player.position.y = v.player.position.y ∧ u.player.body.velocity = .zero ∧
        u.board.cells.hasFloorAt u.player.position = true) ∧
      (∀ group, v.board.kind? tile = some (.teleport group .source) → v.player.skipArmed = false →
        ((∃ other g, (v.dispatch tile).1 = some (.teleportFailed other g)) ↔
          v.board.teleports.destination group = none) ∧
        (v.board.teleports.destination group = none →
          v.dispatch tile = (some (.teleportFailed tile group), v))) := by
  have sound : w.board.Sound := built.sound.authored (authored_of_play played)
  have settled := (reachable_of_play played).settled
  refine ⟨sound.destination, ?_, sound.floor, ?_, ?_⟩
  · intro group
    by_cases within : group < 10
    · rw [sound.destination_eq_none within, or_iff_right (UInt8.not_le.mpr within)]
    · refine iff_of_true ?_ (.inl (UInt8.not_lt.mp within))
      cases known : w.board.teleports.destination group with
      | none => rfl
      | some id => exact absurd ((sound.destination group id).mp known).1 within
  · intro events u event running stepped member acted
    exact settled.exists_dispatch running stepped member acted
  · intro v tile same
    rw [← same] at sound
    constructor
    · intro source target group u dispatched
      obtain ⟨-, found, known, lands⟩ := (acts_of_dispatch dispatched).lands sound rfl
      obtain ⟨t, there, position⟩ := lands.target
      refine ⟨found, known, ⟨t, there, ?_, ?_⟩, ?_, lands.rest, lands.floor⟩ <;> rw [position]
    · intro group found unarmed
      exact dispatch_source sound unarmed found

theorem built_row : row.Built :=
  .addTile (.addTile (.addTile (.addTile (.addTile .empty))))

theorem row_teleports_to_its_destination :
    ∃ told w, onRow 3 [.step] = .ok (told, w) ∧ .teleported 3 4 0 ∈ told.flatten ∧
      w.board.IsFirst (.teleport 0 .destination) 4 := by
  have teleports : (onRow 3 [.step]).toOption.any (fun played =>
      decide (.teleported 3 4 0 ∈ played.1.flatten) &&
      decide (played.2.board.teleports.destination 0 = some 4)) = true := by
    decide +kernel
  obtain ⟨⟨told, w⟩, played, checked⟩ := exists_of_any teleports
  obtain ⟨tells, known⟩ := Bool.and_eq_true_iff.mp checked
  have first := (teleports_land_on_first_destination built_row played).1 0 4
  exact ⟨told, w, played, of_decide_eq_true tells, (first.mp (of_decide_eq_true known)).2⟩

end World
end Tilewalk
