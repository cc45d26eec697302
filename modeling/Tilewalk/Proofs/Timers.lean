import Mathlib.Data.List.Nodup
import Tilewalk.Timers

/-! Timers of tiles: starting one replaces the one before, so no tile ever has two. -/

set_option autoImplicit false

namespace Tilewalk

namespace Timers

def OneEach (t : Timers) : Prop := (t.pending.map (·.tile)).Nodup

theorem mem_start {t : Timers} {now : Float} {delay : Float32} {tile : TileId} {timer : Timer}
    (member : timer ∈ (t.start now delay tile).2.pending) :
    timer.tile = tile ∨ timer ∈ t.pending := by
  rcases List.mem_append.mp member with kept | new
  · exact .inr (List.mem_filter.mp kept).1
  · exact .inl (congrArg Timer.tile (List.mem_singleton.mp new))

theorem OneEach.start {t : Timers} (one : t.OneEach) (now : Float) (delay : Float32)
    (tile : TileId) : (t.start now delay tile).2.OneEach := by
  have kept : ((t.pending.filter (·.tile != tile)).map (·.tile)).Nodup :=
    one.sublist (List.filter_sublist.map _)
  have fresh : tile ∉ (t.pending.filter (·.tile != tile)).map (·.tile) := by
    simp
  simp only [OneEach, Timers.start, cancel, List.map_append, List.map_cons, List.map_nil]
  refine List.nodup_append.mpr ⟨kept, by simp, ?_⟩
  intro other member new listed same
  rw [same, List.mem_singleton.mp listed] at member
  exact fresh member

/-- Nothing differs but the timer of one tile; the others keep their times and their order. -/
structure OnlyOf (tile : TileId) (t u : Timers) : Prop where
  others : u.pending.filter (·.tile ≠ tile) = t.pending.filter (·.tile ≠ tile)
  own : ∃ due, u.pending.filter (·.tile = tile) = [⟨due, tile⟩]

theorem onlyOf_start (t : Timers) (now : Float) (delay : Float32) (tile : TileId) :
    OnlyOf tile t (t.start now delay tile).2 where
  others := by simp [start, cancel, List.filter_append, List.filter_filter, bne, beq_eq_decide]
  own := ⟨now + Binary64.widen delay, by simp [start, cancel, List.filter_append, List.filter_filter]⟩

theorem OneEach.takeDue {t : Timers} (one : t.OneEach) (now : Float) : (t.takeDue now).2.OneEach :=
  one.sublist (List.filter_sublist.map _)

def Runs (t : Timers) (tile : TileId) : Prop := ∃ timer ∈ t.pending, timer.tile = tile

theorem runs_start (t : Timers) (now : Float) (delay : Float32) (tile other : TileId) :
    (t.start now delay tile).2.Runs other ↔ other = tile ∨ t.Runs other := by
  constructor
  · rintro ⟨timer, member, rfl⟩
    rcases mem_start member with same | old
    · exact .inl same
    · exact .inr ⟨timer, old, rfl⟩
  · by_cases same : other = tile
    · subst same
      exact fun _ => ⟨⟨now + Binary64.widen delay, other⟩, List.mem_append_right _ (by simp), rfl⟩
    · rintro (equal | ⟨timer, member, rfl⟩)
      · exact absurd equal same
      · have kept : timer ∈ t.pending.filter (·.tile != tile) :=
          List.mem_filter.mpr ⟨member, by simpa using same⟩
        exact ⟨timer, List.mem_append_left _ kept, rfl⟩

theorem mem_takeDue_iff {t : Timers} {now : Float} {tile : TileId} :
    tile ∈ (t.takeDue now).1 ↔ ∃ timer ∈ t.pending, isDue now timer = true ∧ timer.tile = tile := by
  simp [takeDue, List.mem_mergeSort, and_assoc]

theorem OneEach.nodup_takeDue {t : Timers} (one : t.OneEach) (now : Float) :
    (t.takeDue now).1.Nodup := by
  have sorted : (((t.pending.filter (isDue now)).mergeSort noLater).map (·.tile)).Perm
      ((t.pending.filter (isDue now)).map (·.tile)) := (List.mergeSort_perm _ _).map _
  exact sorted.nodup_iff.mpr (one.sublist (List.filter_sublist.map _))

theorem OneEach.runs_takeDue {t : Timers} (one : t.OneEach) (now : Float) (tile : TileId) :
    (t.takeDue now).2.Runs tile ↔ t.Runs tile ∧ tile ∉ (t.takeDue now).1 := by
  rw [mem_takeDue_iff]
  constructor
  · rintro ⟨timer, member, rfl⟩
    obtain ⟨old, kept⟩ := List.mem_filter.mp member
    refine ⟨⟨timer, old, rfl⟩, ?_⟩
    rintro ⟨other, pending, due, same⟩
    -- Both timers belong to the tile, so they are one.
    rw [List.inj_on_of_nodup_map one pending old same] at due
    simp [due] at kept
  · rintro ⟨⟨timer, member, rfl⟩, stays⟩
    refine ⟨timer, List.mem_filter.mpr ⟨member, ?_⟩, rfl⟩
    cases due : isDue now timer with
    | false => rfl
    | true => exact absurd ⟨timer, member, due, rfl⟩ stays

end Timers

end Tilewalk
