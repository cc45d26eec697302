import Tilewalk.Proofs.Registers
import Tilewalk.Proofs.Timers
import Tilewalk.Proofs.World.Action

/-! How far the effect of a tile reaches. In any world at all, a tile that is entered touches what belongs
to its kind and leaves the rest, and an effect that cannot run leaves everything. -/

set_option autoImplicit false

namespace Tilewalk
namespace World

/-- Enter a tile when events were told before: what the tile tells comes after them. -/
def dispatchAfter (w : World) (told : List Event) (tile : TileId) : List Event × World :=
  (told ++ (w.dispatch tile).1.toList, (w.dispatch tile).2)

/-- What a tile may tell and change when it is entered. Whatever is not named in the second world is as in
the first. -/
inductive Footprint (w : World) (tile : TileId) : Option Event → World → Prop where
  | unknown : w.board.tiles.length ≤ tile → Footprint w tile none w
  | passive {kind : TileKind} : w.board.kind? tile = some kind → kind.hasEffect = false →
      Footprint w tile none w
  | skips {kind : TileKind} : w.board.kind? tile = some kind → kind.hasEffect = true →
      w.player.skipArmed = true → Footprint w tile (some (.effectSkipped tile))
        { w with player := { w.player with skipArmed := false } }
  -- From here on the skip is disarmed, and the tile acts by its own effect.
  | turns {d heading : Direction} {x z : Float32} : w.board.kind? tile = some (.arrow d) →
      w.player.skipArmed = false → Footprint w tile (some (.directionChanged tile d))
        { w with player := { w.player with
          heading := heading
          body := { w.player.body with
            position := { w.player.body.position with x := x, z := z } } } }
  | computes {r : Register} {o : Operation} {n : Int32} {registers : Registers} {timers : Timers} :
      w.board.kind? tile = some (.gem r o n) → w.player.skipArmed = false →
      Registers.OnlyOn r w.registers registers →
      (o = .divide → n = 0 → registers = w.registers) →
      Timers.OnlyOf tile w.timers timers → Footprint w tile (some (.gemHidden tile))
        { w with registers := registers, timers := timers }
  | tests {r : Register} {c : Comparator} {n : Int32} {passed skip : Bool} :
      w.board.kind? tile = some (.gate r c n) → w.player.skipArmed = false →
      c.holds (w.registers.get r) n = passed → (skip = true ↔ passed = false) →
      Footprint w tile (some (.conditionEvaluated tile passed))
        { w with player := { w.player with skipArmed := skip } }
  | strands {g : UInt8} : w.board.kind? tile = some (.teleport g .source) →
      w.player.skipArmed = false → w.exit? g = none →
      Footprint w tile (some (.teleportFailed tile g)) w
  | jumps {g : UInt8} {target : TileId} {position velocity : Vec3} {x z cooldown : Float32} :
      w.board.kind? tile = some (.teleport g .source) → w.player.skipArmed = false →
      w.exit? g = some (target, position) →
      Footprint w tile (some (.teleported tile target g))
        { w with player := { w.player with
          cooldown := cooldown
          body := { w.player.body with
            position := { w.player.body.position with x := x, z := z }
            velocity := velocity } } }
  | completes {event : Option Event} {complete moving : Bool} {velocity spin : Vec3} :
      w.board.kind? tile = some .goal → w.player.skipArmed = false →
      event = (if w.complete then none else some .levelComplete) → Footprint w tile event
        { w with
          complete := complete
          player := { w.player with
            isMoving := moving
            body := { w.player.body with velocity := velocity, spin := spin } } }

/-- What no tile changes, in any world: the scene, the random words and the height. -/
structure SameSetting (w u : World) : Prop extends SameScene w u where
  words : u.words = w.words
  height : u.player.position.y = w.player.position.y

variable {w u : World} {tile : TileId}

theorem Footprint.sameSetting {event : Option Event} (footprint : Footprint w tile event u) :
    SameSetting w u := by
  cases footprint <;> exact ⟨⟨⟨rfl, rfl, rfl, rfl, rfl, rfl⟩, rfl, rfl, rfl⟩, rfl, rfl⟩

theorem Acts.footprint {event : Event} (acts : Acts w tile event u) :
    Footprint w tile (some event) u := by
  cases acts with
  | skips found effect armed => exact .skips found effect armed
  | turns found unarmed => exact .turns found unarmed
  | computes found unarmed =>
    refine .computes found unarmed (Registers.onlyOn_operate _ _ _ _) ?_ (Timers.onlyOf_start _ _ _ _)
    rintro rfl rfl
    exact Registers.operate_divide_zero _ _
  | passes found unarmed test => exact .tests found unarmed test (by simp [unarmed])
  | fails found unarmed test => exact .tests found unarmed test (by simp)
  | strands found unarmed exit => exact .strands found unarmed exit
  | jumps found unarmed exit => exact .jumps found unarmed exit
  | completes found unarmed unfinished => exact .completes found unarmed (by simp [unfinished])

theorem footprint_of_goal (found : w.board.kind? tile = some .goal)
    (unarmed : w.player.skipArmed = false) :
    Footprint w tile (w.dispatch tile).1 (w.dispatch tile).2 := by
  rw [dispatch_of_unarmed found rfl unarmed]
  exact .completes found unarmed rfl

theorem footprint_dispatch (w : World) (tile : TileId) :
    Footprint w tile (w.dispatch tile).1 (w.dispatch tile).2 := by
  cases found : w.board.kind? tile with
  | none =>
    have lookup : w.board.tile? tile = none := Option.map_eq_none_iff.mp found
    simp only [dispatch, lookup]
    exact .unknown (List.getElem?_eq_none_iff.mp lookup)
  | some kind =>
    cases effect : kind.hasEffect with
    | false =>
      obtain ⟨t, lookup, rfl⟩ := Option.map_eq_some_iff.mp found
      simp only [dispatch, lookup, effect, Bool.false_eq_true, if_false]
      exact .passive found effect
    | true =>
      cases armed : w.player.skipArmed with
      | true =>
        have skips : Acts w tile _ _ := .skips found effect armed
        rw [skips.dispatch_eq]
        exact skips.footprint
      | false =>
        -- The goal is the one tile that may act and tell nothing.
        by_cases goal : kind = .goal
        · subst goal
          exact footprint_of_goal found armed
        · obtain ⟨event, u, acts⟩ := exists_acts found effect fun same => absurd same goal
          rw [acts.dispatch_eq]
          exact acts.footprint

theorem sameScene_enterAll (w : World) (tiles : List TileId) :
    SameScene w (w.enterAll tiles).2 := by
  induction tiles generalizing w with
  | nil => exact .refl w
  | cons tile rest ih =>
    have here : SameScene w (w.enter tile).2 := by
      unfold enter
      split
      · exact (footprint_dispatch w tile).sameSetting.toSameScene
      · exact .refl w
    exact here.trans (ih (w.enter tile).2)

/-- Entering a tile, in any world and after any events: at most one event is added to those that were
told, and what changes lies within the footprint of the tile. -/
theorem tiles_keep_to_their_footprint (w : World) (tile : TileId) (told : List Event) :
    ∃ event u, w.dispatchAfter told tile = (told ++ event.toList, u) ∧
      Footprint w tile event u ∧ SameSetting w u := by
  have footprint := footprint_dispatch w tile
  exact ⟨_, _, rfl, footprint, footprint.sameSetting⟩

end World
end Tilewalk
