import Tilewalk.View

/-! The gems that a view hides. Only the events of gems change them; a list of events mirrors a change
of the set of gems that are to be hidden when it leads every view from the one set to the other and
brings back none that is not hidden at that moment. -/

set_option autoImplicit false

namespace Tilewalk

namespace Event

def isGem : Event → Bool
  | gemHidden _ | gemRestored _ => true
  | _ => false

end Event

namespace View

open Event

def Hides (v : View) (gems : TileId → Prop) : Prop := ∀ tile, v.gemVisible tile = false ↔ gems tile

@[simp] theorem gemVisible_hideGem (v : View) (gem tile : TileId) :
    (v.hideGem gem).gemVisible tile = false ↔ tile = gem ∨ v.gemVisible tile = false := by
  simp only [gemVisible, hideGem]
  split
  · next hidden =>
    refine ⟨Or.inr, ?_⟩
    rintro (rfl | old)
    · simpa using hidden
    · exact old
  · by_cases same : tile = gem <;> simp [same]

@[simp] theorem gemVisible_showGem (v : View) (gem tile : TileId) :
    (v.showGem gem).gemVisible tile = false ↔ v.gemVisible tile = false ∧ tile ≠ gem := by
  simp [gemVisible, showGem]

@[simp] theorem gemVisible_tick (v : View) (tile : TileId) : v.tick.gemVisible tile = v.gemVisible tile := by
  simp only [tick]
  split <;> rfl

@[simp] theorem gemVisible_moveCursor (v : View) (dx dz : Int32) (board : Board) (tile : TileId) :
    (v.moveCursor dx dz board).gemVisible tile = v.gemVisible tile := by
  simp only [moveCursor]
  split <;> rfl

theorem gemVisible_follow (v : View) (board : Board) {event : Event} (plain : event.isGem = false)
    (tile : TileId) : (v.follow board event).gemVisible tile = v.gemVisible tile := by
  cases event with
  | phaseChanged phase => cases phase <;> rfl
  | gemHidden gem => cases plain
  | gemRestored gem => cases plain
  | tileEdited edited =>
    simp only [follow]
    split <;> rfl
  | _ => rfl

theorem Hides.of_same {v u : View} {gems : TileId → Prop} (hides : v.Hides gems)
    (same : ∀ tile, u.gemVisible tile = v.gemVisible tile) : u.Hides gems :=
  fun tile => by rw [same]; exact hides tile

/-- Every gem that comes back is hidden until then and visible afterwards. -/
def RestoresHidden (board : Board) (v : View) : List Event → Prop
  | [] => True
  | event :: rest =>
    (∀ tile, event = .gemRestored tile →
      v.gemVisible tile = false ∧ (v.follow board event).gemVisible tile = true) ∧
    RestoresHidden board (v.follow board event) rest

@[simp] theorem apply_nil (v : View) (board : Board) : v.apply [] board = v := rfl

@[simp] theorem apply_cons (v : View) (event : Event) (rest : List Event) (board : Board) :
    v.apply (event :: rest) board = (v.follow board event).apply rest board := rfl

@[simp] theorem apply_append (v : View) (first second : List Event) (board : Board) :
    v.apply (first ++ second) board = (v.apply first board).apply second board :=
  List.foldl_append

theorem restoresHidden_append {board : Board} {v : View} {first second : List Event} :
    RestoresHidden board v (first ++ second) ↔
      RestoresHidden board v first ∧ RestoresHidden board (v.apply first board) second := by
  induction first generalizing v with
  | nil => simp [RestoresHidden]
  | cons event rest ih => simp [RestoresHidden, ih, and_assoc]

/-- The events lead from one set of hidden gems to another, and bring back hidden gems only. -/
def Mirrors (before : TileId → Prop) (events : List Event) (after : TileId → Prop) : Prop :=
  ∀ (board : Board) (v : View), v.Hides before →
    (v.apply events board).Hides after ∧ RestoresHidden board v events

section
variable {first second third : TileId → Prop} {events later : List Event}

theorem Mirrors.append (mirrors : Mirrors first events second)
    (mirrors' : Mirrors second later third) : Mirrors first (events ++ later) third := by
  intro board v hides
  obtain ⟨middle, restores⟩ := mirrors board v hides
  obtain ⟨last, restores'⟩ := mirrors' board _ middle
  exact ⟨by simpa using last, restoresHidden_append.mpr ⟨restores, restores'⟩⟩

theorem Mirrors.congr (mirrors : Mirrors first events second)
    (same : ∀ tile, second tile ↔ third tile) : Mirrors first events third := by
  intro board v hides
  obtain ⟨last, restores⟩ := mirrors board v hides
  exact ⟨fun tile => (last tile).trans (same tile), restores⟩

theorem mirrors_nil (gems : TileId → Prop) : Mirrors gems [] gems :=
  fun _ _ hides => ⟨hides, trivial⟩

theorem mirrors_plain (gems : TileId → Prop) {event : Event} (plain : event.isGem = false) :
    Mirrors gems [event] gems := by
  intro board v hides
  refine ⟨hides.of_same (gemVisible_follow v board plain), ?_, trivial⟩
  rintro tile rfl
  cases plain

theorem mirrors_plains (gems : TileId → Prop) (plain : ∀ event ∈ events, event.isGem = false) :
    Mirrors gems events gems := by
  induction events with
  | nil => exact mirrors_nil gems
  | cons event rest ih =>
    have here := mirrors_plain gems (plain event List.mem_cons_self)
    exact here.append (ih fun other member => plain other (List.mem_cons_of_mem _ member))

theorem mirrors_gemHidden (gems : TileId → Prop) (gem : TileId) :
    Mirrors gems [.gemHidden gem] fun tile => tile = gem ∨ gems tile := by
  intro board v hides
  exact ⟨fun tile => by simp [follow, hides tile], by simp [RestoresHidden]⟩

theorem mirrors_gemRestored {gems : TileId → Prop} {gem : TileId} (hidden : gems gem) :
    Mirrors gems [.gemRestored gem] fun tile => gems tile ∧ tile ≠ gem := by
  intro board v hides
  refine ⟨fun tile => ?_, fun tile same => ?_, trivial⟩
  · simp [follow, hides tile]
  · cases same
    exact ⟨(hides gem).mpr hidden, by simp [View.follow, gemVisible, showGem]⟩

theorem mirrors_restored {gems : TileId → Prop} {tiles : List TileId} (distinct : tiles.Nodup)
    (hidden : ∀ tile ∈ tiles, gems tile) :
    Mirrors gems (tiles.map .gemRestored) fun tile => gems tile ∧ tile ∉ tiles := by
  induction tiles generalizing gems with
  | nil => exact (mirrors_nil gems).congr fun tile => by simp
  | cons gem rest ih =>
    obtain ⟨fresh, distinct⟩ := List.nodup_cons.mp distinct
    have here := mirrors_gemRestored (hidden gem List.mem_cons_self)
    -- The others are still hidden, because none of them is the first one again.
    have still : ∀ tile ∈ rest, gems tile ∧ tile ≠ gem := fun tile member =>
      ⟨hidden tile (List.mem_cons_of_mem _ member), fun same => fresh (same ▸ member)⟩
    refine (here.append (ih distinct still)).congr fun tile => ?_
    simp [and_assoc]

end

end View
end Tilewalk
