import Mathlib.Data.List.Chain
import Tilewalk.Proofs.World.Skipping

/-! Contact with tiles. A visit is what one tick finds at the place to which it carries the player: the
tiles that are touched there, and those that are let act. The visits since the last change of phase say
what the contacts remember, so a tile acts once and then not again until a tick does not touch it. -/

set_option autoImplicit false

namespace Tilewalk

theorem nodup_eraseDups {α : Type} [BEq α] [LawfulBEq α] : ∀ l : List α, l.eraseDups.Nodup
  | [] => by simp
  | a :: l => by
    rw [List.eraseDups_cons, List.nodup_cons]
    exact ⟨by simp [List.mem_eraseDups], nodup_eraseDups _⟩
termination_by l => l.length
decreasing_by exact Nat.lt_succ_of_le (List.length_filter_le _ _)

theorem Contacts.ascending_pairwise (tiles : List TileId) : (ascending tiles).Pairwise (· < ·) := by
  have sorted : (ascending tiles).Pairwise (· ≤ ·) := by
    have ordered := @List.pairwise_mergeSort Nat (fun a b => decide (a ≤ b))
      (fun a b c => by simpa using Nat.le_trans) (fun a b => by simpa using Nat.le_total a b)
      tiles.eraseDups
    simpa [ascending] using ordered
  have distinct : (ascending tiles).Nodup :=
    (List.mergeSort_perm _ _).nodup_iff.mpr (nodup_eraseDups tiles)
  exact sorted.imp₂ (fun _ _ => Nat.lt_of_le_of_ne) distinct

/-- The event tells of what the tile did. The goal is not named in its event. -/
def Event.Concerns (board : Board) (tile : TileId) : Event → Prop
  | directionChanged t _ | gemHidden t | conditionEvaluated t _ | effectSkipped t
  | teleported t _ _ | teleportFailed t _ => t = tile
  | levelComplete => board.kind? tile = some .goal
  | _ => False

/-- What a tick finds where the player has been carried. -/
structure Visit where
  touched : List TileId
  /-- The tiles that are let act, with the events that tell of it. -/
  acts : List (TileId × Event)

def Visit.actors (visit : Visit) : List TileId := visit.acts.map (·.1)

namespace World

open Event

variable {w u v : World} {past : List Visit}

/-- The world in which this tick meets tiles, unless the tick fails before. -/
def arrival? (w : World) : Option World :=
  w.tickClock.resolveMovement.toOption.map fun moved => moved.2.integrate

def visit (w : World) : Visit where
  touched := w.touched
  acts := (w.arrive.dispatches w.entered).filterMap fun d => (d.2.dispatch d.1).1.map (d.1, ·)

def turn (w : World) (tile : TileId) : World :=
  (w.arrive.enterAll (w.entered.filter (· < tile))).2

/-- The visits since the last change of phase, after one more operation. -/
def record (past : List Visit) (w : World) : Command → List Visit
  | .step => if w.phase = .running then past ++ (w.arrival?.map visit).toList else past
  | .changePhase target => if w.phase = target then past else []
  | .edit .. | .changeSpeed _ | .setSpeed _ => past

/-- The world is reached with these visits since the last change of phase. -/
inductive Recorded : List Visit → World → Prop where
  | opened {board : Board} {spawn : Pose} {config : SimConfig} {words : WordSource} {w : World} :
      World.opened board spawn config words = .ok w → Recorded [] w
  | perform {past : List Visit} {w w' : World} {c : Command} {events : List Event} :
      Recorded past w → w.perform c = .ok (events, w') → Recorded (record past w c) w'

theorem Recorded.reachable (recorded : Recorded past w) : Reachable w := by
  induction recorded with
  | opened made => exact .opened made
  | perform _ result ih => exact ih.perform result

theorem Reachable.exists_recorded (reachable : Reachable w) : ∃ past, Recorded past w := by
  induction reachable with
  | opened made => exact ⟨[], .opened made⟩
  | perform _ result ih =>
    obtain ⟨past, recorded⟩ := ih
    exact ⟨_, recorded.perform result⟩

/-! ## One visit -/

theorem Acts.concerns {tile : TileId} {event : Event} (acts : Acts w tile event u) :
    event.Concerns w.board tile := by
  cases acts with
  | completes found => exact found
  | _ => rfl

theorem Enters.concerns {tiles : List TileId} {acts : List (TileId × Event)}
    (enters : Enters w tiles acts u) : ∀ act ∈ acts, act.2.Concerns w.board act.1 := by
  induction enters with
  | done => simp
  | passed _ _ ih => exact ih
  | acted _ act _ ih =>
    rw [act.sameScene.board] at ih
    intro other member
    rcases List.mem_cons.mp member with rfl | later
    · exact act.concerns
    · exact ih other later

theorem Enters.visit_acts {acts : List (TileId × Event)}
    (enters : Enters w.arrive w.entered acts u) : w.visit.acts = acts := by
  have each := congrArg (List.filterMap fun act => act.2.map (act.1, ·)) enters.dispatches
  simpa [visit, List.filterMap_map, Function.comp_def] using each

theorem entered_pairwise (w : World) : w.entered.Pairwise (· < ·) :=
  (Contacts.ascending_pairwise w.touched).filter _

theorem dispatches_sublist (w : World) (tiles : List TileId) :
    ((w.dispatches tiles).map (·.1)).Sublist tiles := by
  induction tiles generalizing w with
  | nil => exact .slnil
  | cons tile rest ih =>
    simp only [dispatches]
    split
    · exact (ih _).cons_cons tile
    · exact (ih _).cons tile

theorem mem_dispatches_iff {tiles : List TileId} (sorted : tiles.Pairwise (· < ·)) (tile : TileId) :
    tile ∈ (w.dispatches tiles).map (·.1) ↔
      tile ∈ tiles ∧ (w.enterAll (tiles.filter (· < tile))).2.admits = true := by
  -- The world changes with every tile that has had its turn.
  induction tiles generalizing w with
  | nil => simp [dispatches]
  | cons first rest ih =>
    obtain ⟨least, sorted⟩ := List.pairwise_cons.mp sorted
    have later := ih (w := (w.enter first).2) sorted
    by_cases same : tile = first
    · -- No smaller tile comes before the first one, and it does not come again.
      subst same
      have none : rest.filter (· < tile) = [] := by
        rw [List.filter_eq_nil_iff]
        intro other member
        simpa using Nat.le_of_lt (least other member)
      have again : tile ∉ ((w.enter tile).2.dispatches rest).map (·.1) :=
        fun member => Nat.lt_irrefl tile (least tile ((dispatches_sublist _ rest).subset member))
      cases admitted : w.admits <;> simp [dispatches, none, enterAll, admitted, again]
    · -- Any other tile has its turn after the first one, when it is greater.
      have member : tile ∈ first :: rest ↔ tile ∈ rest := by simp [same]
      have act : tile ∈ (w.dispatches (first :: rest)).map (·.1)
          ↔ tile ∈ ((w.enter first).2.dispatches rest).map (·.1) := by
        cases admitted : w.admits <;> simp [dispatches, admitted, same]
      rw [act, later, member]
      refine and_congr_right fun there => ?_
      have smaller : first < tile := least tile there
      simp [smaller, enterAll]

theorem Settled.arrival_of_step (settled : w.Settled) (running : w.phase = .running)
    {events : List Event} (stepped : w.step = .ok (events, u)) :
    ∃ here acts last, w.arrival? = some here ∧ SameStage w here ∧ here.contacts = w.contacts ∧
      Enters here.arrive here.entered acts last ∧ events.filter isTile = acts.map (·.2) ∧
      u.contacts = here.arrive.contacts := by
  obtain ⟨moved, v, acts, last, movement, moves, enters, rfl, rfl⟩ :=
    step_eq_ok running settled.rests stepped
  have scene := moves.sameScene
  refine ⟨v.integrate, acts, last, by simp [arrival?, movement, Except.toOption], ?_, ?_, enters, ?_, ?_⟩
  · exact { scene.toSameStage with }
  · exact scene.contacts
  · exact filter_isTile_between moves.aside enters.isTile (aside_handOver last)
  · exact enters.sameScene.contacts

theorem Enters.actors {acts : List (TileId × Event)}
    (enters : Enters w.arrive w.entered acts u) :
    w.visit.actors = (w.arrive.dispatches w.entered).map (·.1) := by
  have each := congrArg (List.map Prod.fst) enters.dispatches
  simpa [Visit.actors, enters.visit_acts, Function.comp_def] using each.symm

/-! ## The visits of a period -/

/-- What holds of worlds without contacts and goes on with each visit, and otherwise depends on the
contacts only, holds of every recorded world. -/
theorem Recorded.preserves (Holds : List Visit → World → Prop)
    (first : ∀ {start : World}, start.contacts.inside = [] → Holds [] start)
    (visits : ∀ {past : List Visit} {v x here : World} {events : List Event}, Recorded past v →
      Holds past v → v.phase = .running → v.step = .ok (events, x) → v.arrival? = some here →
      Holds (past ++ [here.visit]) x)
    (kept : ∀ {past : List Visit} {v x : World}, Holds past v → x.contacts = v.contacts →
      Holds past x)
    (recorded : Recorded past w) : Holds past w := by
  induction recorded with
  | opened made =>
    obtain ⟨p, -, rfl⟩ := opened_eq_ok made
    exact first rfl
  | @perform past w u c events before result ih =>
    have settled := before.reachable.settled
    cases settled.performs result with
    | ticks running _ =>
      obtain ⟨here, acts, last, arrival, -⟩ := settled.arrival_of_step running result
      have recorded : record past w .step = past ++ [here.visit] := by
        simp [record, running, arrival]
      rw [recorded]
      exact visits before ih running result arrival
    | restarts other =>
      -- The contacts forget with the phase, and so does the record.
      simpa [record, other] using first rfl
    | idles editing => simpa [record, editing] using ih
    | stays => simpa [record] using ih
    | refuses => exact ih
    | edits => exact kept ih rfl
    | changesSpeed => exact kept ih rfl
    | setsSpeed => exact kept ih rfl

theorem Recorded.mem_inside_iff (recorded : Recorded past w) :
    ∀ tile, tile ∈ w.contacts.inside ↔ ∃ last, past.getLast? = some last ∧ tile ∈ last.touched := by
  refine recorded.preserves (fun past v => ∀ tile,
    tile ∈ v.contacts.inside ↔ ∃ last, past.getLast? = some last ∧ tile ∈ last.touched) ?_ ?_ ?_
  · intro start none tile
    simp [none]
  · intro past v x here events before _ running stepped arrival tile
    obtain ⟨other, acts, last, arrived, -, -, -, -, contacts⟩ :=
      before.reachable.settled.arrival_of_step running stepped
    cases arrived.symm.trans arrival
    have inside : x.contacts.inside = Contacts.ascending here.touched := by rw [contacts]; rfl
    simp [inside, visit]
  · intro past v x remembered same
    rwa [same]

theorem Settled.mem_actors_iff (settled : w.Settled) (recorded : Recorded past w)
    (running : w.phase = .running) {events : List Event} (stepped : w.step = .ok (events, u))
    {here : World} (arrival : w.arrival? = some here) (tile : TileId) :
    tile ∈ here.visit.actors ↔ tile ∈ here.touched ∧
      (∀ last, past.getLast? = some last → tile ∉ last.touched) ∧
      (here.turn tile).admits = true := by
  obtain ⟨other, acts, last, arrived, -, contacts, enters, -, -⟩ :=
    settled.arrival_of_step running stepped
  cases arrived.symm.trans arrival
  -- What the player was in contact with is what it touched at the last visit.
  have outside : tile ∉ here.contacts.inside ↔
      ∀ last, past.getLast? = some last → tile ∉ last.touched := by
    rw [contacts, recorded.mem_inside_iff]
    simp
  rw [enters.actors, mem_dispatches_iff (entered_pairwise here), mem_entered, outside, and_assoc]
  rfl

def Apart (first second : Visit) : Prop := ∀ tile ∈ second.actors, tile ∉ first.touched

/-- The visits of a period: whatever acts is touched, and was not touched one visit before. -/
structure Period (past : List Visit) : Prop where
  touched : ∀ visit ∈ past, ∀ tile ∈ visit.actors, tile ∈ visit.touched
  apart : past.IsChain Apart

theorem period_nil : Period [] := ⟨by simp, .nil⟩

theorem Period.concat (period : Period past) {visit : Visit}
    (touched : ∀ tile ∈ visit.actors, tile ∈ visit.touched)
    (apart : ∀ last, past.getLast? = some last → Apart last visit) : Period (past ++ [visit]) where
  touched := by
    intro other member
    rcases List.mem_append.mp member with old | new
    · exact period.touched other old
    · rw [List.mem_singleton.mp new]
      exact touched
  apart := by
    refine List.isChain_append.mpr ⟨period.apart, by simp, ?_⟩
    intro last ends next begins
    cases begins
    exact apart last ends

theorem Recorded.period (recorded : Recorded past w) : Period past := by
  -- Whoever acts was not touched at the last visit, so each visit is apart from the one before.
  refine recorded.preserves (fun past _ => Period past) ?_ ?_ ?_
  · intro start _
    exact period_nil
  · intro past v x here events before period running stepped arrival
    have actors := before.reachable.settled.mem_actors_iff before running stepped arrival
    refine period.concat ?_ ?_
    · intro tile acts
      exact ((actors tile).mp acts).1
    · intro last ends tile acts
      exact ((actors tile).mp acts).2.1 last ends
  · intro past v x period _
    exact period

theorem Period.exists_apart {before between after : List Visit} {first second : Visit}
    (period : Period (before ++ first :: between ++ second :: after)) {tile : TileId}
    (here : tile ∈ first.actors) (there : tile ∈ second.actors) :
    ∃ visit ∈ between, tile ∉ visit.touched := by
  rcases List.eq_nil_or_concat between with rfl | ⟨middle, last, rfl⟩
  · -- The visits would follow each other, but then the second one finds the tile already touched.
    have touched := period.touched first (by simp) tile here
    have apart : Apart first second := by
      have chain := period.apart
      simp only [List.append_assoc, List.cons_append, List.nil_append,
        List.isChain_append_cons_cons] at chain
      exact chain.2.1
    exact absurd touched (apart tile there)
  · have apart : Apart last second := by
      have chain : (before ++ first :: middle ++ last :: second :: after).IsChain Apart := by
        simpa using period.apart
      rw [List.isChain_append_cons_cons] at chain
      exact chain.2.1
    exact ⟨last, by simp, apart tile there⟩

/-- In every world that operations lead to a step leaves the contacts with the tiles that are touched
where it carries the player, and those of them act, in ascending order, that the last visit did not
touch and that are admitted at their turn. So a tile that acts twice was left in between. -/
theorem acts_once_per_contact (reachable : Reachable w) :
    (∃ past, Recorded past w) ∧ ∀ past, Recorded past w →
      (∀ events u, w.phase = .running → w.step = .ok (events, u) →
        ∃ here, w.arrival? = some here ∧
          (∀ tile, tile ∈ u.contacts.inside ↔ ∃ t, w.board.tile? tile = some t ∧
            t.kind.hasEffect = true ∧ overlaps here.player.position w.config.playerHalfExtent
              t.position w.config.triggerHalfExtent = true) ∧
          events.filter isTile = here.visit.acts.map (·.2) ∧
          (∀ act ∈ here.visit.acts, act.2.Concerns w.board act.1) ∧
          here.visit.actors.Pairwise (· < ·) ∧
          ∀ tile, tile ∈ here.visit.actors ↔ tile ∈ u.contacts.inside ∧
            (∀ last, past.getLast? = some last → tile ∉ last.touched) ∧
            (here.turn tile).player.isMoving = true ∧ ¬ 0 < (here.turn tile).player.cooldown) ∧
      ∀ before first between second after tile,
        past = before ++ first :: between ++ second :: after →
        tile ∈ first.actors → tile ∈ second.actors → ∃ visit ∈ between, tile ∉ visit.touched := by
  refine ⟨reachable.exists_recorded, fun past recorded => ⟨?_, ?_⟩⟩
  · intro events u running stepped
    have settled := reachable.settled
    obtain ⟨here, acts, last, arrival, stage, -, enters, tells, contacts⟩ :=
      settled.arrival_of_step running stepped
    have inside (tile : TileId) : tile ∈ u.contacts.inside ↔ tile ∈ here.touched := by
      rw [contacts]
      exact Contacts.mem_ascending
    refine ⟨here, arrival, ?_, ?_, ?_, ?_, ?_⟩
    · intro tile
      rw [inside, mem_touched, stage.board]
      simp only [touches, stage.config, Bool.and_eq_true]
    · rw [enters.visit_acts, tells]
    · rw [enters.visit_acts]
      have concerns := enters.concerns
      rwa [show here.arrive.board = w.board from stage.board] at concerns
    · rw [enters.actors]
      exact (entered_pairwise here).sublist (dispatches_sublist _ _)
    · intro tile
      rw [inside, ← admits_iff]
      exact settled.mem_actors_iff recorded running stepped arrival tile
  · rintro before first between second after tile rfl here there
    exact recorded.period.exists_apart here there

/-- A gate that has acted is still touched one tick later, and does not act again. -/
theorem gate_acts_once :
    ∃ told w events u, onRow 0 [.step] = .ok (told, w) ∧ w.step = .ok (events, u) ∧
      told.flatten.filter isTile = [.conditionEvaluated 0 false] ∧ events.filter isTile = [] ∧
      0 ∈ u.contacts.inside ∧
      ∃ past last, Recorded past w ∧ past.getLast? = some last ∧ 0 ∈ last.touched := by
  have quiet : (onRow 0 [.step]).toOption.any (fun played =>
      decide (played.1.flatten.filter isTile = [.conditionEvaluated 0 false] ∧
        played.2.phase = .running) &&
      played.2.arrival?.any (fun here => decide ((here.turn 0).player.isMoving = true ∧
        ¬ 0 < (here.turn 0).player.cooldown)) &&
      played.2.step.toOption.any (fun stepped =>
        decide (stepped.1.filter isTile = [] ∧ 0 ∈ stepped.2.contacts.inside))) = true := by
    decide +kernel
  obtain ⟨⟨told, w⟩, played, checked⟩ := exists_of_any quiet
  obtain ⟨checked, after⟩ := Bool.and_eq_true_iff.mp checked
  obtain ⟨before, turn⟩ := Bool.and_eq_true_iff.mp checked
  obtain ⟨told, running⟩ := of_decide_eq_true before
  obtain ⟨⟨events, u⟩, stepped, after⟩ := exists_of_any after
  obtain ⟨none, inside⟩ := of_decide_eq_true after
  obtain ⟨⟨past, recorded⟩, visits⟩ := acts_once_per_contact (reachable_of_play played)
  obtain ⟨here, arrival, -, tells, -, -, actors⟩ :=
    (visits past recorded).1 events u running stepped
  rw [arrival] at turn
  have idle : 0 ∉ here.visit.actors := by
    rw [none] at tells
    simp [Visit.actors, List.map_eq_nil_iff.mp tells.symm]
  refine ⟨_, w, events, u, played, stepped, told, none, inside, past, ?_⟩
  by_contra unseen
  refine idle ((actors 0).mpr ⟨inside, fun last ends touched => ?_, of_decide_eq_true turn⟩)
  exact unseen ⟨last, recorded, ends, touched⟩

end World
end Tilewalk
