import Tilewalk.Proofs.Board
import Tilewalk.World.Command

/-! What entering a tile does. A tile with an effect has eight outcomes, each with the one event that
tells of it, and the tiles entered in a tick act one after another. -/

set_option autoImplicit false

namespace Tilewalk

namespace World

/-- A tile with an effect acts: it tells of itself with the event, and leaves the second world. -/
inductive Acts (w : World) (tile : TileId) : Event → World → Prop where
  | skips {kind : TileKind} : w.board.kind? tile = some kind → kind.hasEffect = true →
      w.player.skipArmed = true →
      Acts w tile (.effectSkipped tile) (w.withPlayer fun p => { p with skipArmed := false })
  -- The others act by their own effect, which needs the skip disarmed.
  | turns {d : Direction} : w.board.kind? tile = some (.arrow d) → w.player.skipArmed = false →
      Acts w tile (.directionChanged tile d) (w.turnPlayer d)
  | computes {r : Register} {o : Operation} {n : Int32} :
      w.board.kind? tile = some (.gem r o n) → w.player.skipArmed = false →
      Acts w tile (.gemHidden tile) (w.runOperation tile r o n)
  | passes {r : Register} {c : Comparator} {n : Int32} :
      w.board.kind? tile = some (.gate r c n) → w.player.skipArmed = false →
      c.holds (w.registers.get r) n = true → Acts w tile (.conditionEvaluated tile true) w
  | fails {r : Register} {c : Comparator} {n : Int32} :
      w.board.kind? tile = some (.gate r c n) → w.player.skipArmed = false →
      c.holds (w.registers.get r) n = false →
      Acts w tile (.conditionEvaluated tile false) (w.withPlayer (·.armSkip))
  | strands {g : UInt8} : w.board.kind? tile = some (.teleport g .source) →
      w.player.skipArmed = false → w.exit? g = none → Acts w tile (.teleportFailed tile g) w
  | jumps {g : UInt8} {target : TileId} {position : Vec3} :
      w.board.kind? tile = some (.teleport g .source) → w.player.skipArmed = false →
      w.exit? g = some (target, position) → Acts w tile (.teleported tile target g) (w.jump position)
  | completes : w.board.kind? tile = some .goal → w.player.skipArmed = false →
      w.complete = false → Acts w tile .levelComplete w.reachGoal

theorem dispatch_of_unarmed {w : World} {tile : TileId} {kind : TileKind}
    (found : w.board.kind? tile = some kind) (effect : kind.hasEffect = true)
    (unarmed : w.player.skipArmed = false) :
    w.dispatch tile = w.runEffect tile (.ofKind kind w.registers) := by
  obtain ⟨t, lookup, rfl⟩ := Option.map_eq_some_iff.mp found
  simp [dispatch, lookup, effect, Player.takeSkip, unarmed]

theorem Acts.dispatch_eq {w u : World} {tile : TileId} {event : Event}
    (acts : Acts w tile event u) : w.dispatch tile = (some event, u) := by
  cases acts with
  | skips found effect armed =>
    obtain ⟨t, lookup, rfl⟩ := Option.map_eq_some_iff.mp found
    simp [dispatch, lookup, effect, Player.takeSkip, armed, withPlayer]
  | turns found unarmed =>
    rw [dispatch_of_unarmed found rfl unarmed]
    rfl
  | computes found unarmed =>
    rw [dispatch_of_unarmed found rfl unarmed]
    rfl
  | passes found unarmed test =>
    rw [dispatch_of_unarmed found rfl unarmed]
    simp [Effect.ofKind, runEffect, settleCondition, test]
  | fails found unarmed test =>
    rw [dispatch_of_unarmed found rfl unarmed]
    simp [Effect.ofKind, runEffect, settleCondition, test, withPlayer]
  | strands found unarmed exit =>
    rw [dispatch_of_unarmed found rfl unarmed]
    simp [Effect.ofKind, runEffect, exit]
  | jumps found unarmed exit =>
    rw [dispatch_of_unarmed found rfl unarmed]
    simp [Effect.ofKind, runEffect, exit]
  | completes found unarmed unfinished =>
    rw [dispatch_of_unarmed found rfl unarmed]
    simp [Effect.ofKind, runEffect, unfinished]

theorem exists_acts {w : World} {tile : TileId} {kind : TileKind}
    (found : w.board.kind? tile = some kind) (effect : kind.hasEffect = true)
    (unfinished : kind = .goal → w.complete = false) : ∃ event u, Acts w tile event u := by
  -- An armed skip goes before whatever the tile would do.
  cases armed : w.player.skipArmed with
  | true => exact ⟨_, _, .skips found effect armed⟩
  | false =>
    cases kind with
    | floor => simp [TileKind.hasEffect] at effect
    | start => simp [TileKind.hasEffect] at effect
    | goal => exact ⟨_, _, .completes found armed (unfinished rfl)⟩
    | arrow d => exact ⟨_, _, .turns found armed⟩
    | gem r o n => exact ⟨_, _, .computes found armed⟩
    | gate r c n =>
      cases test : c.holds (w.registers.get r) n with
      | true => exact ⟨_, _, .passes found armed test⟩
      | false => exact ⟨_, _, .fails found armed test⟩
    | teleport g role =>
      cases role with
      | destination => simp [TileKind.hasEffect] at effect
      | source =>
        cases exit : w.exit? g with
        | none => exact ⟨_, _, .strands found armed exit⟩
        | some place => exact ⟨_, _, .jumps found armed exit⟩

theorem acts_of_dispatch {w u : World} {tile : TileId} {event : Event}
    (dispatched : w.dispatch tile = (some event, u)) : Acts w tile event u := by
  -- A dispatch has one outcome, so whatever is known to act is what did.
  have acted {event' : Event} {u' : World} (acts : Acts w tile event' u') : Acts w tile event u := by
    cases acts.dispatch_eq.symm.trans dispatched
    exact acts
  cases lookup : w.board.tile? tile with
  | none => simp [dispatch, lookup] at dispatched
  | some t =>
    have found : w.board.kind? tile = some t.kind := by simp [Board.kind?, lookup]
    cases effect : t.kind.hasEffect with
    | false => simp [dispatch, lookup, effect] at dispatched
    | true =>
      cases armed : w.player.skipArmed with
      | true => exact acted (.skips found effect armed)
      | false =>
        -- Only a goal that was reached before says nothing.
        have unfinished : t.kind = .goal → w.complete = false := by
          intro goal
          cases finished : w.complete with
          | false => rfl
          | true =>
            rw [dispatch_of_unarmed found effect armed, goal] at dispatched
            simp [Effect.ofKind, runEffect, finished] at dispatched
        obtain ⟨_, _, acts⟩ := exists_acts found effect unfinished
        exact acted acts

/-- Tiles are entered in turn; those that are let act are listed with the events that tell of them. -/
inductive Enters : World → List TileId → List (TileId × Event) → World → Prop where
  | done {w : World} : Enters w [] [] w
  | passed {w u : World} {tile : TileId} {rest : List TileId} {acts : List (TileId × Event)} :
      w.admits = false → Enters w rest acts u → Enters w (tile :: rest) acts u
  | acted {w u v : World} {tile : TileId} {event : Event} {rest : List TileId}
      {acts : List (TileId × Event)} : w.admits = true → Acts w tile event u →
      Enters u rest acts v → Enters w (tile :: rest) ((tile, event) :: acts) v

theorem admits_iff {w : World} :
    w.admits = true ↔ w.player.isMoving = true ∧ ¬ 0 < w.player.cooldown := by
  simp [admits]

theorem Enters.eq_of_refused {w u : World} {tiles : List TileId} {acts : List (TileId × Event)}
    (enters : Enters w tiles acts u) (refused : w.admits = false) : acts = [] ∧ u = w := by
  -- A tile that does not act leaves the world, which then lets no other act.
  induction enters with
  | done => exact ⟨rfl, rfl⟩
  | passed _ _ ih => exact ih refused
  | acted admitted => cases admitted.symm.trans refused

/-- What no tick changes. -/
structure SameStage (w u : World) : Prop where
  config : u.config = w.config
  board : u.board = w.board
  phase : u.phase = w.phase
  speed : u.player.speed = w.player.speed
  speedLimit : u.player.speedLimit = w.player.speedLimit
  spawn : u.player.spawn = w.player.spawn

theorem SameStage.trans {w u v : World} (first : SameStage w u) (second : SameStage u v) :
    SameStage w v :=
  ⟨second.config.trans first.config, second.board.trans first.board,
    second.phase.trans first.phase, second.speed.trans first.speed,
    second.speedLimit.trans first.speedLimit, second.spawn.trans first.spawn⟩

/-- What no tile and no movement changes: the contacts and the clock as well. -/
structure SameScene (w u : World) : Prop extends SameStage w u where
  contacts : u.contacts = w.contacts
  time : u.time = w.time
  tick : u.tick = w.tick

theorem SameScene.refl (w : World) : SameScene w w := ⟨⟨rfl, rfl, rfl, rfl, rfl, rfl⟩, rfl, rfl, rfl⟩

theorem SameScene.trans {w u v : World} (first : SameScene w u) (second : SameScene u v) :
    SameScene w v :=
  ⟨first.toSameStage.trans second.toSameStage, second.contacts.trans first.contacts,
    second.time.trans first.time, second.tick.trans first.tick⟩

theorem Acts.sameScene {w u : World} {tile : TileId} {event : Event} (acts : Acts w tile event u) :
    SameScene w u := by
  cases acts <;> exact ⟨⟨rfl, rfl, rfl, rfl, rfl, rfl⟩, rfl, rfl, rfl⟩

theorem Enters.sameScene {w u : World} {tiles : List TileId} {acts : List (TileId × Event)}
    (enters : Enters w tiles acts u) : SameScene w u := by
  induction enters with
  | done => exact .refl _
  | passed _ _ ih => exact ih
  | acted _ act _ ih => exact act.sameScene.trans ih

theorem Acts.rests {w u : World} {tile : TileId} {event : Event} (acts : Acts w tile event u)
    (unfinished : w.complete = false) : u.complete = true → u.player.isMoving = false := by
  cases acts with
  | completes => exact fun _ => rfl
  | _ =>
    intro finished
    exact absurd (finished.symm.trans unfinished) (by decide)

theorem enterAll_enters {w : World} {tiles : List TileId}
    (effects : ∀ tile ∈ tiles, ∃ kind, w.board.kind? tile = some kind ∧ kind.hasEffect = true)
    (rests : w.complete = true → w.player.isMoving = false) :
    ∃ acts u, w.enterAll tiles = (acts.map (·.2), u) ∧ Enters w tiles acts u := by
  -- Each tile leaves another world for the rest, on the same board and with the goal still at rest.
  induction tiles generalizing w with
  | nil => exact ⟨[], w, rfl, .done⟩
  | cons tile rest ih =>
    have later : ∀ other ∈ rest, ∃ kind, w.board.kind? other = some kind ∧ kind.hasEffect = true :=
      fun other member => effects other (List.mem_cons_of_mem _ member)
    cases admitted : w.admits with
    | false =>
      obtain ⟨acts, u, result, enters⟩ := ih later rests
      exact ⟨acts, u, by simp [enterAll, enter, admitted, result], .passed admitted enters⟩
    | true =>
      obtain ⟨kind, found, effect⟩ := effects tile List.mem_cons_self
      have moving := (admits_iff.mp admitted).1
      have unfinished : w.complete = false := by
        cases finished : w.complete with
        | true => cases moving.symm.trans (rests finished)
        | false => rfl
      obtain ⟨event, v, act⟩ := exists_acts found effect fun _ => unfinished
      obtain ⟨acts, u, result, enters⟩ := ih (w := v) (by rwa [act.sameScene.board])
        (act.rests unfinished)
      refine ⟨(tile, event) :: acts, u, ?_, .acted admitted act enters⟩
      simp [enterAll, enter, admitted, act.dispatch_eq, result]

/-- The entered tiles that are let act, each with the world in which it does. -/
def dispatches (w : World) : List TileId → List (TileId × World)
  | [] => []
  | tile :: rest =>
    let later := (w.enter tile).2.dispatches rest
    if w.admits then (tile, w) :: later else later

theorem Enters.dispatches {w u : World} {tiles : List TileId} {acts : List (TileId × Event)}
    (enters : Enters w tiles acts u) :
    (w.dispatches tiles).map (fun d => (d.1, (d.2.dispatch d.1).1))
      = acts.map (fun act => (act.1, some act.2)) := by
  induction enters with
  | done => rfl
  | passed refused _ ih => simpa [World.dispatches, enter, refused] using ih
  | acted admitted act _ ih =>
    simpa [World.dispatches, enter, admitted, act.dispatch_eq] using ih

end World
end Tilewalk
