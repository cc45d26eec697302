import Tilewalk.Proofs.World.Holding
import Tilewalk.Proofs.World.Visits

/-! What ends the effects of a tick. The goal stops the player, and a teleport holds it; the tiles that
are entered after that in the same tick do not act. A teleport that holds for no time ends nothing. -/

set_option autoImplicit false

namespace Tilewalk

namespace Event

/-- No tile that is entered later in the same tick may act; `hold` is how long a teleport holds. -/
def Suppresses (hold : Float32) : Event → Prop
  | levelComplete => True
  | teleported .. => 0 < hold
  | _ => False

theorem suppresses_iff {hold : Float32} {event : Event} : event.Suppresses hold ↔
    event = levelComplete ∨
      (∃ source target group, event = teleported source target group) ∧ 0 < hold := by
  cases event with
  | teleported => simp [Suppresses]
  | _ => simp [Suppresses]

theorem Suppresses.isTile {hold : Float32} {event : Event} (suppresses : event.Suppresses hold) :
    event.isTile = true := by
  cases event with
  | levelComplete => rfl
  | teleported => rfl
  | _ => cases suppresses

end Event

namespace World

open Event

variable {w u : World} {events : List Event}

theorem Acts.admits_iff {tile : TileId} {event : Event} (acts : Acts w tile event u)
    (admitted : w.admits = true) :
    u.admits = true ↔ ¬ event.Suppresses w.config.teleportCooldown := by
  have before := World.admits_iff.mp admitted
  rw [World.admits_iff]
  cases acts with
  | @jumps _ _ position =>
    have hold : 0 < (w.jump position).player.cooldown ↔ 0 < w.config.teleportCooldown :=
      Binary32.zero_lt_atLeast_iff
    exact (and_iff_right before.1).trans (not_congr hold)
  | completes => simp [reachGoal, Player.stopAtGoal, Suppresses]
  | _ => exact iff_of_true before id

theorem Enters.until_suppressed {tiles : List TileId} {acts : List (TileId × Event)}
    (enters : Enters w tiles acts u) (admitted : w.admits = true) :
    (∀ before event after, acts.map (·.2) = before ++ event :: after →
      event.Suppresses w.config.teleportCooldown → after = []) ∧
    acts.map (·.1) <+: tiles ∧
    ((∀ act ∈ acts, ¬ act.2.Suppresses w.config.teleportCooldown) → acts.map (·.1) = tiles) := by
  -- Each act is followed by an end of the effects or by a world that admits the next one, so it is
  -- admission that the induction hands on.
  induction enters with
  | done => exact ⟨fun before event after split => by simp at split, List.nil_prefix, fun _ => rfl⟩
  | passed refused => cases admitted.symm.trans refused
  | @acted w u v tile event rest acts _ act enters ih =>
    have next := act.admits_iff admitted
    rw [act.sameScene.config] at ih
    cases admitted' : u.admits with
    | true =>
      obtain ⟨last, begins, whole⟩ := ih admitted'
      refine ⟨fun before other after split ends => ?_, ?_, fun free => ?_⟩
      · cases before with
        | nil =>
          obtain ⟨rfl, -⟩ := List.cons.inj split
          exact absurd ends (next.mp admitted')
        | cons first before => exact last before other after (List.cons.inj split).2 ends
      · exact List.cons_prefix_cons.mpr ⟨rfl, begins⟩
      · have others := whole fun other member => free other (List.mem_cons_of_mem _ member)
        rw [List.map_cons, others]
    | false =>
      -- Nothing acts any more, and this act is why.
      obtain ⟨rfl, -⟩ := enters.eq_of_refused admitted'
      have ends : event.Suppresses w.config.teleportCooldown := by
        by_contra free
        cases admitted'.symm.trans (next.mpr free)
      refine ⟨fun before other after split _ => ?_, ?_, fun free => ?_⟩
      · cases before with
        | nil => exact (List.cons.inj split).2.symm
        | cons first before => simp at split
      · exact List.cons_prefix_cons.mpr ⟨rfl, List.nil_prefix⟩
      · exact absurd ends (free _ List.mem_cons_self)

theorem Enters.actors_isPrefix {tiles : List TileId} {acts : List (TileId × Event)}
    (enters : Enters w tiles acts u) : acts.map (·.1) <+: tiles := by
  cases admitted : w.admits with
  | true => exact (enters.until_suppressed admitted).2.1
  | false =>
    rw [(enters.eq_of_refused admitted).1]
    exact List.nil_prefix

theorem Enters.last_of_suppresses {tiles : List TileId} {acts : List (TileId × Event)}
    (enters : Enters w tiles acts u) {before after : List Event} {event : Event}
    (split : acts.map (·.2) = before ++ event :: after)
    (ends : event.Suppresses w.config.teleportCooldown) : after = [] := by
  cases admitted : w.admits with
  | true => exact (enters.until_suppressed admitted).1 before event after split ends
  | false =>
    rw [(enters.eq_of_refused admitted).1] at split
    simp at split

/-- In a tick no tile acts after the goal, and none after a teleport when teleports hold the player.
Apart from that every tile acts that the player enters, also after teleports that hold for no time. -/
theorem effects_until_goal_or_hold (reachable : Reachable w) (running : w.phase = .running)
    (stepped : w.step = .ok (events, u)) :
    (∀ before event after, events = before ++ event :: after →
      event = .levelComplete ∨
        (∃ source target group, event = .teleported source target group) ∧
          0 < w.config.teleportCooldown →
      ∀ later ∈ after, later.isTile = false) ∧
    ∃ (there : World) (acts : List (TileId × Event)), w.arrival? = some there ∧
      events.filter isTile = acts.map (·.2) ∧ (∀ act ∈ acts, act.2.Concerns w.board act.1) ∧
      acts.map (·.1) <+: there.entered ∧
      (there.admits = true → .levelComplete ∉ events → ¬ 0 < w.config.teleportCooldown →
        acts.map (·.1) = there.entered) := by
  have settled := reachable.settled
  obtain ⟨moved, v, acts, last, movement, moves, enters, rfl, rfl⟩ :=
    step_eq_ok running settled.rests stepped
  have stage : SameStage w v := { moves.sameScene.toSameStage with }
  have config : v.integrate.arrive.config = w.config := stage.config
  have told : (moved ++ acts.map (·.2) ++ last.handOver.1).filter isTile = acts.map (·.2) :=
    filter_isTile_between moves.aside enters.isTile (aside_handOver last)
  refine ⟨fun before event after split ends => ?_, v.integrate, acts, ?_, told, ?_, ?_, ?_⟩
  · have suppresses : event.Suppresses v.integrate.arrive.config.teleportCooldown := by
      rw [config]
      exact suppresses_iff.mpr ends
    rw [split, List.filter_append, List.filter_cons_of_pos suppresses.isTile] at told
    have none := enters.last_of_suppresses told.symm suppresses
    exact fun later member => by simpa using List.filter_eq_nil_iff.mp none later member
  · simp [arrival?, movement, Except.toOption]
  · have concerns := enters.concerns
    rwa [show v.integrate.arrive.board = w.board from stage.board] at concerns
  · exact enters.actors_isPrefix
  · intro admitted unfinished free
    refine (enters.until_suppressed admitted).2.2 fun act member suppresses => ?_
    have there : act.2 ∈ moved ++ acts.map (·.2) ++ last.handOver.1 :=
      List.mem_append_left _ (List.mem_append_right _ (List.mem_map_of_mem member))
    rw [config] at suppresses
    rcases suppresses_iff.mp suppresses with goal | ⟨-, holds⟩
    · exact unfinished (goal ▸ there)
    · exact free holds

/-! ## A teleport beside an arrow -/

theorem eraseDups_of_nodup {α : Type} [BEq α] [LawfulBEq α] {l : List α} (distinct : l.Nodup) :
    l.eraseDups = l := by
  induction l with
  | nil => rfl
  | cons a rest ih =>
    obtain ⟨fresh, distinct⟩ := List.nodup_cons.mp distinct
    have others : rest.filter (fun b => !b == a) = rest :=
      List.filter_eq_self.mpr fun b member => by
        have other : b ≠ a := fun same => fresh (same ▸ member)
        simp [other]
    rw [List.eraseDups_cons, others, ih distinct]

def newlyTouched (w : World) : List TileId :=
  w.touched.filter fun tile => !w.contacts.inside.contains tile

/-- The touched tiles are in order already, so the entered ones need not be sorted. -/
theorem entered_eq_newlyTouched (w : World) : w.entered = w.newlyTouched := by
  have ordered : w.touched.Pairwise (· < ·) := by
    have numbered : (w.board.tiles.zipIdx.map (·.2)).Pairwise (· < ·) := by
      rw [List.zipIdx_map_snd]
      exact List.pairwise_lt_range'
    exact numbered.sublist (List.filter_sublist.map _)
  have sorted : Contacts.ascending w.touched = w.touched := by
    rw [Contacts.ascending, eraseDups_of_nodup (ordered.imp Nat.ne_of_lt)]
    exact List.mergeSort_of_pairwise (ordered.imp fun less => decide_eq_true (Nat.le_of_lt less))
  rw [entered, Contacts.update, sorted, newlyTouched]

theorem step_of_newlyTouched {v : World} {moved acted : List Event} (running : w.phase = .running)
    (movement : w.tickClock.resolveMovement = .ok (moved, u))
    (enters : u.integrate.arrive.enterAll u.integrate.newlyTouched = (acted, v)) :
    w.step = .ok (moved ++ acted ++ v.handOver.1, v.handOver.2) := by
  have contacts : u.integrate.resolveContacts = (acted, v) := by
    rw [← enters, ← entered_eq_newlyTouched]
    rfl
  simp [step, running, advance, movement, contacts, handOver, bind, Except.bind, pure, Except.pure]

def besideArrow : Board :=
  let tiles : List Tile := [.place (.teleport 0 .source) ⟨0, 0, 0⟩,
    .place (.teleport 0 .destination) ⟨5, 0, 0⟩, .place (.arrow .right) ⟨1, 0, 0⟩]
  tiles.foldl .addTile (.empty "beside arrow")

def wideTriggers (hold : Float32) : SimConfig :=
  { SimConfig.standard with
    teleportCooldown := hold
    playerHalfExtent := 0.6
    triggerHalfExtent := 0.6 }

def tellsBesideArrow (hold : Float32) (expected : List Event) : Bool :=
  (play besideArrow ⟨⟨0, 0.5, 0⟩, .identity⟩ (wideTriggers hold) (.stepping 0 1)
    [.changePhase .running]).toOption.any fun played =>
      decide (played.2.phase = .running ∧ played.2.config = wideTriggers hold) &&
      played.2.tickClock.resolveMovement.toOption.any fun (moved, v) =>
        let (acted, last) := v.integrate.arrive.enterAll v.integrate.newlyTouched
        decide (v.integrate.newlyTouched = [0, 2] ∧ moved ++ acted ++ last.handOver.1 = expected)

theorem exists_of_tellsBesideArrow {hold : Float32} {expected : List Event}
    (tells : tellsBesideArrow hold expected = true) :
    ∃ w u there, Reachable w ∧ w.phase = .running ∧ w.config = wideTriggers hold ∧
      w.step = .ok (expected, u) ∧ w.arrival? = some there ∧ there.entered = [0, 2] := by
  obtain ⟨⟨told, w⟩, played, checked⟩ := exists_of_any tells
  obtain ⟨before, checked⟩ := Bool.and_eq_true_iff.mp checked
  obtain ⟨running, config⟩ := of_decide_eq_true before
  obtain ⟨⟨moved, v⟩, movement, checked⟩ := exists_of_any checked
  obtain ⟨entered, rfl⟩ := of_decide_eq_true checked
  have arrives : w.arrival? = some v.integrate := by
    simp [arrival?, show w.tickClock.resolveMovement = _ from movement, Except.toOption]
  exact ⟨w, _, v.integrate, reachable_of_play played, running, config,
    step_of_newlyTouched running movement rfl, arrives, (entered_eq_newlyTouched _).trans entered⟩

/-- When the teleport holds the player, the arrow that is entered with it does not act. -/
theorem teleport_suppresses_arrow :
    ∃ w u there, Reachable w ∧ w.phase = .running ∧ 0 < w.config.teleportCooldown ∧
      w.step = .ok ([.teleported 0 1 0], u) ∧ w.arrival? = some there ∧ there.entered = [0, 2] ∧
      ∃ acts : List (TileId × Event), acts.map (·.1) <+: [0, 2] ∧
        [.teleported 0 1 0] = acts.map (·.2) := by
  have tells : tellsBesideArrow 0.05 [.teleported 0 1 0] = true := by decide +kernel
  obtain ⟨w, u, there, reachable, running, config, stepped, arrives, entered⟩ :=
    exists_of_tellsBesideArrow tells
  have holds : 0 < w.config.teleportCooldown := by
    rw [config]
    decide
  obtain ⟨-, there', acts, arrives', told, -, begins, -⟩ :=
    effects_until_goal_or_hold reachable running stepped
  cases arrives.symm.trans arrives'
  rw [entered] at begins
  exact ⟨w, u, there, reachable, running, holds, stepped, arrives, entered, acts, begins, told⟩

/-- With a hold of no time the arrow turns the player that is already gone. -/
theorem arrow_turns_warped_player :
    (wideTriggers 0).legalize.toOption = some (wideTriggers 0, []) ∧
    ∃ w u there, Reachable w ∧ w.phase = .running ∧ w.config = wideTriggers 0 ∧
      w.step = .ok ([.teleported 0 1 0, .directionChanged 2 .right], u) ∧
      w.arrival? = some there ∧ there.entered = [0, 2] := by
  refine ⟨by decide +kernel, exists_of_tellsBesideArrow ?_⟩
  decide +kernel

end World
end Tilewalk
