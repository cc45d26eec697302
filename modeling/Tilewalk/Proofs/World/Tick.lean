import Tilewalk.Proofs.World.Action

/-! What one tick does: the player moves in one of four ways, the body is carried on, the tiles entered
at the new position act, and the due timers and the queued changes are handed over. -/

set_option autoImplicit false

namespace Tilewalk

@[simp] theorem Contacts.mem_ascending {tile : TileId} {tiles : List TileId} :
    tile ∈ ascending tiles ↔ tile ∈ tiles := by
  simp [ascending, List.mem_mergeSort]

namespace World

def wait (w : World) : World :=
  w.withPlayer fun p => { p with cooldown := Binary32.atLeast 0 (p.cooldown - w.config.dt) }

/-- The player's movement is decided: what it tells and the world after it. -/
inductive Moves (w : World) : List Event → World → Prop where
  | holds : ¬ w.player.cooldown ≤ 0 → Moves w [] w.wait
  | stands : w.player.cooldown ≤ 0 → w.player.isMoving = false → Moves w [] w
  | travels : w.player.cooldown ≤ 0 → w.player.isMoving = true →
      w.board.cells.hasFloorAt w.player.position = true → Moves w [] (w.withPlayer (·.travel))
  | falls {spin : Vec3} {words : WordSource} : w.player.cooldown ≤ 0 →
      w.player.isMoving = true → w.board.cells.hasFloorAt w.player.position = false →
      Tumble.draw w.player.body.horizontalSpeed w.words = (spin, words) →
      Moves w [.fallStarted] { w with
        player := { w.player with
          isMoving := false
          isFalling := true
          body := { w.player.body with spin := spin, usesGravity := true, rotationLocked := false } }
        words := words }

theorem resolveMovement_of_held {w : World} (kept : ¬ w.player.cooldown ≤ 0) :
    w.resolveMovement = .ok ([], w.wait) := by
  simp [resolveMovement, Player.tickCooldown, kept, wait, withPlayer]

theorem resolveMovement_moves {w u : World} {events : List Event}
    (result : w.resolveMovement = .ok (events, u)) : Moves w events u := by
  by_cases free : w.player.cooldown ≤ 0
  · have decided : w.move = .ok (events, u) := by
      simpa [resolveMovement, Player.tickCooldown, free] using result
    cases moving : w.player.isMoving with
    | false =>
      obtain ⟨rfl, rfl⟩ : [] = events ∧ w = u := by simpa [move, moving] using decided
      exact .stands free moving
    | true =>
      cases floor : w.board.cells.hasFloorAt w.player.position with
      | true =>
        obtain ⟨rfl, rfl⟩ : [] = events ∧ w.withPlayer (·.travel) = u := by
          simpa [move, moving, floor, withPlayer] using decided
        exact .travels free moving floor
      | false =>
        -- A fall without a range of spins is the one way in which the movement fails.
        cases usable : Tumble.usable w.player.body.horizontalSpeed with
        | false =>
          simp [move, moving, floor, Player.startFall, usable, bind, Except.bind] at decided
        | true =>
          simp only [move, moving, floor, Player.startFall, usable, bind, Except.bind,
            Bool.not_true, Bool.false_eq_true, if_false, if_true, pure, Except.pure,
            Except.ok.injEq, Prod.mk.injEq] at decided
          obtain ⟨rfl, rfl⟩ := decided
          exact .falls free moving floor rfl
  · rw [resolveMovement_of_held free] at result
    cases result
    exact .holds free

theorem Moves.sameScene {w u : World} {events : List Event} (moves : Moves w events u) :
    SameScene w u := by
  cases moves <;> exact ⟨⟨rfl, rfl, rfl, rfl, rfl, rfl⟩, rfl, rfl, rfl⟩

def arrive (w : World) : World := { w with contacts := (w.contacts.update w.touched).2 }

/-- The tiles that are touched now and were not touched before, ascending. -/
def entered (w : World) : List TileId := (w.contacts.update w.touched).1

theorem mem_touched {w : World} {tile : TileId} :
    tile ∈ w.touched ↔ ∃ t, w.board.tile? tile = some t ∧ w.touches w.player.position t = true := by
  simp [touched, Board.tile?, List.mem_zipIdx_iff_getElem?]

@[simp] theorem mem_entered {w : World} {tile : TileId} :
    tile ∈ w.entered ↔ tile ∈ w.touched ∧ tile ∉ w.contacts.inside := by
  simp [entered, Contacts.update]

theorem entered_effect {w : World} {tile : TileId} (member : tile ∈ w.entered) :
    ∃ kind, w.board.kind? tile = some kind ∧ kind.hasEffect = true := by
  obtain ⟨t, lookup, touched⟩ := mem_touched.mp (mem_entered.mp member).1
  refine ⟨t.kind, by simp [Board.kind?, lookup], ?_⟩
  simp only [touches, Bool.and_eq_true] at touched
  exact touched.1

def handOver (w : World) : List Event × World :=
  (w.resolveTimers.1 ++ w.resolveTimers.2.drainChanges.1, w.resolveTimers.2.drainChanges.2)

/-- One tick while running. -/
inductive Ticks (w : World) : List Event → World → Prop where
  | mk {moved : List Event} {u v : World} {acts : List (TileId × Event)} :
      Moves w.tickClock moved u → Enters u.integrate.arrive u.integrate.entered acts v →
      Ticks w (moved ++ acts.map (·.2) ++ v.handOver.1) v.handOver.2

theorem step_of_movement {w u : World} {moved : List Event} (running : w.phase = .running)
    (movement : w.tickClock.resolveMovement = .ok (moved, u))
    (rests : u.complete = true → u.player.isMoving = false) :
    ∃ acts v, Enters u.integrate.arrive u.integrate.entered acts v ∧
      w.step = .ok (moved ++ acts.map (·.2) ++ v.handOver.1, v.handOver.2) := by
  have effects : ∀ tile ∈ u.integrate.entered,
      ∃ kind, u.integrate.arrive.board.kind? tile = some kind ∧ kind.hasEffect = true :=
    fun _ member => entered_effect (w := u.integrate) member
  -- From here on there are only total functions.
  obtain ⟨acts, v, result, enters⟩ := enterAll_enters effects rests
  refine ⟨acts, v, enters, ?_⟩
  have contacts : u.integrate.resolveContacts = (acts.map (·.2), v) := result
  simp [step, running, advance, movement, contacts, handOver, bind, Except.bind, pure, Except.pure]

theorem Moves.rests {w u : World} {events : List Event} (moves : Moves w events u)
    (rests : w.complete = true → w.player.isMoving = false) :
    u.complete = true → u.player.isMoving = false := by
  cases moves with
  | falls => exact fun _ => rfl
  | _ => exact rests

theorem step_eq_ok {w u : World} {events : List Event} (running : w.phase = .running)
    (rests : w.complete = true → w.player.isMoving = false)
    (result : w.step = .ok (events, u)) :
    ∃ moved v acts last, w.tickClock.resolveMovement = .ok (moved, v) ∧
      Moves w.tickClock moved v ∧ Enters v.integrate.arrive v.integrate.entered acts last ∧
      events = moved ++ acts.map (·.2) ++ last.handOver.1 ∧ u = last.handOver.2 := by
  cases movement : w.tickClock.resolveMovement with
  | error fault => simp [step, running, advance, movement, bind, Except.bind] at result
  | ok moved =>
    obtain ⟨moved, v⟩ := moved
    have moves := resolveMovement_moves movement
    obtain ⟨acts, last, enters, stepped⟩ := step_of_movement running movement (moves.rests rests)
    rw [stepped] at result
    cases result
    exact ⟨moved, v, acts, last, rfl, moves, enters, rfl, rfl⟩

theorem step_ticks {w u : World} {events : List Event} (running : w.phase = .running)
    (rests : w.complete = true → w.player.isMoving = false)
    (result : w.step = .ok (events, u)) : Ticks w events u := by
  obtain ⟨moved, v, acts, last, -, moves, enters, rfl, rfl⟩ := step_eq_ok running rests result
  exact .mk moves enters

theorem Ticks.sameStage {w u : World} {events : List Event} (ticks : Ticks w events u) :
    SameStage w u := by
  cases ticks with
  | mk moves enters =>
    have first := moves.sameScene.toSameStage
    have second := enters.sameScene.toSameStage
    exact { first.trans { second with } with }

end World
end Tilewalk
