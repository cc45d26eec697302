import Tilewalk.Proofs.Number.TotalOrder
import Tilewalk.Proofs.Timers

/-! Timers after any requests. A poll takes exactly the timers that have come due, in one order that does
not depend on when the polls before it were made. -/

set_option autoImplicit false

namespace Tilewalk
namespace Timers

inductive Request where
  | start (now : Float) (delay : Float32) (tile : TileId)
  | cancel (tile : TileId)
  | takeDue (now : Float)
  | takeAll

def serve (t : Timers) : Request → Timers
  | .start now delay tile => (t.start now delay tile).2
  | .cancel tile => (t.cancel tile).2
  | .takeDue now => (t.takeDue now).2
  | .takeAll => t.takeAll.2

def after (requests : List Request) : Timers := requests.foldl serve none

variable {t : Timers} {now earlier later : Float} {a b : Timer}

theorem OneEach.serve (one : t.OneEach) (request : Request) : (t.serve request).OneEach := by
  cases request with
  | start now delay tile => exact one.start now delay tile
  | cancel tile => exact one.sublist (List.filter_sublist.map _)
  | takeDue now => exact one.takeDue now
  | takeAll => exact List.nodup_nil

theorem OneEach.serveAll (one : t.OneEach) (requests : List Request) :
    (requests.foldl Timers.serve t).OneEach := by
  induction requests generalizing t with
  | nil => exact one
  | cons request rest ih => exact ih (one.serve request)

theorem oneEach_after (requests : List Request) : (after requests).OneEach :=
  OneEach.serveAll (t := none) List.nodup_nil requests

@[simp] theorem cancel_eq_true_iff (t : Timers) (tile : TileId) :
    (t.cancel tile).1 = true ↔ t.Runs tile := by
  have kept : (t.pending.filter (·.tile != tile)).length = t.pending.length ↔ ¬ t.Runs tile := by
    rw [List.length_filter_eq_length_iff]
    simp [Runs]
  simp only [cancel, bne_iff_ne, ne_eq, kept, not_not]

/-! ## The order of a poll -/

def fired (t : Timers) (now : Float) : List Timer := (t.pending.filter (isDue now)).mergeSort noLater

/-- One timer is taken before another: it is due earlier, or it is due at the very same time and was
started first. -/
def Before (t : Timers) (a b : Timer) : Prop :=
  Binary64.Precedes a.due b.due ∨ a.due = b.due ∧ [a, b].Sublist t.pending

@[simp] theorem isDue_iff : isDue now a = true ↔ a.due ≤ now := decide_eq_true_iff

@[simp] theorem mem_fired : a ∈ t.fired now ↔ a ∈ t.pending ∧ a.due ≤ now := by
  simp [fired]

theorem perm_fired (t : Timers) (now : Float) :
    (t.fired now).Perm (t.pending.filter (isDue now)) := List.mergeSort_perm _ _

theorem isNaN_of_mem_fired (member : a ∈ t.fired now) : a.due.isNaN = false :=
  (Binary64.numbers_of_le (mem_fired.mp member).2).1

theorem OneEach.nodup (one : t.OneEach) : t.pending.Nodup := List.Nodup.of_map _ one

@[simp] theorem noLater_iff : noLater a b = true ↔ Binary64.orderKey a.due ≤ Binary64.orderKey b.due :=
  decide_eq_true_iff

theorem noLater_trans (a b c : Timer) (first : noLater a b = true) (second : noLater b c = true) :
    noLater a c = true := by
  rw [noLater_iff] at *
  exact first.trans second

theorem noLater_total (a b : Timer) : (noLater a b || noLater b a) = true := by
  simp [le_total]

theorem not_sublist_swap {α : Type} {l : List α} {a b : α} (nodup : l.Nodup)
    (ordered : [a, b].Sublist l) : ¬ [b, a].Sublist l := by
  induction l with
  | nil => cases ordered
  | cons head rest ih =>
    obtain ⟨fresh, nodup⟩ := List.nodup_cons.mp nodup
    intro swapped
    cases ordered with
    | cons _ both =>
      cases swapped with
      | cons _ both' => exact ih nodup both both'
      | cons_cons _ first => exact fresh (both.subset (by simp))
    | cons_cons _ second =>
      cases swapped with
      | cons _ both' => exact fresh (both'.subset (by simp))
      | cons_cons _ first => exact fresh (first.subset (by simp))

theorem sublist_or_swap {α : Type} {l : List α} {a b : α} (first : a ∈ l) (second : b ∈ l)
    (ne : a ≠ b) : [a, b].Sublist l ∨ [b, a].Sublist l := by
  have : Std.Symm fun a b => [a, b].Sublist l ∨ [b, a].Sublist l := ⟨fun _ _ => Or.symm⟩
  have pairs : l.Pairwise fun a b => [a, b].Sublist l ∨ [b, a].Sublist l :=
    List.pairwise_iff_forall_sublist.mpr .inl
  exact pairs.forall first second ne

theorem OneEach.pairwise_fired (one : t.OneEach) (now : Float) :
    (t.fired now).Pairwise t.Before := by
  have nodup : (t.fired now).Nodup := (perm_fired t now).nodup_iff.mpr (one.nodup.filter _)
  rw [List.pairwise_iff_forall_sublist]
  intro a b ordered
  have sorted : noLater a b = true :=
    List.pairwise_iff_forall_sublist.mp
      (List.pairwise_mergeSort noLater_trans noLater_total _) ordered
  have first : a ∈ t.fired now := ordered.subset (by simp)
  have second : b ∈ t.fired now := ordered.subset (by simp)
  rcases lt_or_eq_of_le (noLater_iff.mp sorted) with less | same
  · exact .inl ((Binary64.orderKey_lt_iff (isNaN_of_mem_fired first)
      (isNaN_of_mem_fired second)).mp less)
  · refine .inr ⟨Binary64.orderKey_inj same, ?_⟩
    have distinct : a ≠ b := List.pairwise_iff_forall_sublist.mp nodup ordered
    rcases sublist_or_swap ((perm_fired t now).mem_iff.mp first)
      ((perm_fired t now).mem_iff.mp second) distinct with started | swapped
    · exact started.trans List.filter_sublist
    · -- The sort is stable: had the second been started first, it would still come first.
      have backwards : [b, a].Sublist (t.fired now) :=
        List.pair_sublist_mergeSort noLater_trans noLater_total (noLater_iff.mpr same.ge) swapped
      exact absurd backwards (not_sublist_swap nodup ordered)

theorem Before.asymm (nodup : t.pending.Nodup) (left : a.due.isNaN = false)
    (right : b.due.isNaN = false) (first : t.Before a b) : ¬ t.Before b a := by
  rw [Before, ← Binary64.orderKey_lt_iff left right] at first
  rw [Before, ← Binary64.orderKey_lt_iff right left]
  rcases first with less | ⟨same, ordered⟩
  · rintro (more | ⟨same, -⟩)
    · exact lt_asymm less more
    · rw [same] at less
      exact lt_irrefl _ less
  · rintro (more | ⟨-, swapped⟩)
    · rw [same] at more
      exact lt_irrefl _ more
    · exact not_sublist_swap nodup ordered swapped

/-! ## Polling twice -/

theorem fired_takeDue_sublist (t : Timers) (now : Float) :
    (t.takeDue now).2.pending.Sublist t.pending := List.filter_sublist

theorem perm_fired_fired (t : Timers) (ordered : earlier ≤ later) :
    (t.fired earlier ++ (t.takeDue earlier).2.fired later).Perm (t.fired later) := by
  have first : t.pending.filter (isDue earlier)
      = (t.pending.filter (isDue later)).filter (isDue earlier) := by
    rw [List.filter_filter]
    refine List.filter_congr fun timer _ => ?_
    cases due : isDue earlier timer with
    | false => rfl
    | true => exact (isDue_iff.mpr (Binary64.le_trans (isDue_iff.mp due) ordered)).symm
  have second : (t.takeDue earlier).2.pending.filter (isDue later)
      = (t.pending.filter (isDue later)).filter (fun timer => !isDue earlier timer) :=
    List.filter_comm ..
  have split := (perm_fired t earlier).append (perm_fired (t.takeDue earlier).2 later)
  rw [first, second] at split
  exact (split.trans (List.filter_append_perm _ _)).trans (perm_fired t later).symm

theorem OneEach.fired_append (one : t.OneEach) (ordered : earlier ≤ later) :
    t.fired earlier ++ (t.takeDue earlier).2.fired later = t.fired later := by
  -- Both sides hold the same timers, and each is pairwise in an order that cannot go both ways.
  refine List.Perm.eq_of_pairwise ?_ ?_ (one.pairwise_fired later) (perm_fired_fired t ordered)
  · intro a b first second before after
    have member := (perm_fired_fired t ordered).mem_iff.mp first
    exact absurd after
      (before.asymm one.nodup (isNaN_of_mem_fired member) (isNaN_of_mem_fired second))
  · refine List.pairwise_append.mpr ⟨one.pairwise_fired earlier, ?_, ?_⟩
    · refine ((one.takeDue earlier).pairwise_fired later).imp fun before => ?_
      exact before.imp id (And.imp id fun pair => pair.trans (fired_takeDue_sublist t earlier))
    · -- What was taken at the first poll is due before whatever was not due then.
      intro a first b second
      have left := (mem_fired.mp first).2
      obtain ⟨waiting, -⟩ := mem_fired.mp second
      have beyond : ¬ b.due ≤ earlier := by
        simpa [isDue] using (List.mem_filter.mp waiting).2
      exact .inl (.inl (Binary64.lt_of_le_of_not_le left (isNaN_of_mem_fired second) beyond))

theorem OneEach.takeDue_takeDue (one : t.OneEach) (ordered : earlier ≤ later) :
    (t.takeDue earlier).1 ++ ((t.takeDue earlier).2.takeDue later).1 = (t.takeDue later).1 ∧
      ((t.takeDue earlier).2.takeDue later).2 = (t.takeDue later).2 := by
  constructor
  · have joined := congrArg (List.map (·.tile)) (one.fired_append ordered)
    rwa [List.map_append] at joined
  · refine congrArg mk ?_
    simp only [Timers.takeDue, List.filter_filter]
    refine List.filter_congr fun timer _ => ?_
    cases due : isDue earlier timer with
    | false => simp
    | true => simp [isDue_iff.mpr (Binary64.le_trans (isDue_iff.mp due) ordered)]

def takeEach (t : Timers) : List Float → List TileId × Timers
  | [] => ([], t)
  | now :: rest =>
    let (first, t) := t.takeDue now
    let (more, t) := t.takeEach rest
    (first ++ more, t)

theorem OneEach.takeEach_eq (one : t.OneEach) {polls : List Float} {last : Float}
    (ascending : (polls ++ [last]).Pairwise (· ≤ ·)) :
    t.takeEach (polls ++ [last]) = t.takeDue last := by
  induction polls generalizing t with
  | nil => simp [takeEach]
  | cons now rest ih =>
    obtain ⟨least, ascending⟩ := List.pairwise_cons.mp ascending
    have rest := ih (one.takeDue now) ascending
    obtain ⟨taken, left⟩ := one.takeDue_takeDue (least last (by simp))
    simp only [List.cons_append, takeEach, rest]
    exact Prod.ext taken left

/-- Timers after any requests. No tile has two, and starting or cancelling says whether there was one; a
poll takes exactly those that have come due, each once, the earliest first and those due at the very
same time in the order of their start; what is not a number never comes due; and however many polls
are made on the way, the last one leaves what it would have left alone, and together they take what it
would have taken, in the same order. -/
theorem due_timers_are_taken_in_order (requests : List Request) {t : Timers}
    (made : after requests = t) :
    t.OneEach ∧
    (∀ now delay tile, ((t.start now delay tile).1 = true ↔ t.Runs tile) ∧
      (t.start now delay tile).2.pending
        = t.pending.filter (·.tile != tile) ++ [⟨now + Binary64.widen delay, tile⟩]) ∧
    (∀ tile, ((t.cancel tile).1 = true ↔ t.Runs tile) ∧
      (t.cancel tile).2.pending = t.pending.filter (·.tile != tile)) ∧
    (∀ now, ∃ taken : List Timer, (t.takeDue now).1 = taken.map (·.tile) ∧
      taken.Perm (t.pending.filter (·.due ≤ now)) ∧ taken.Pairwise t.Before ∧
      (t.takeDue now).2.pending = t.pending.filter (¬ ·.due ≤ now)) ∧
    t.takeAll = (t.pending.map (·.tile), none) ∧
    (∀ timer ∈ t.pending, timer.due.isNaN = true → ∀ now,
      timer.tile ∉ (t.takeDue now).1 ∧ timer ∈ (t.takeDue now).2.pending) ∧
    (∀ earlier later, earlier ≤ later →
      (t.takeDue earlier).1 ++ ((t.takeDue earlier).2.takeDue later).1 = (t.takeDue later).1 ∧
      ((t.takeDue earlier).2.takeDue later).2 = (t.takeDue later).2) ∧
    ∀ polls last, (polls ++ [last]).Pairwise (· ≤ ·) →
      t.takeEach (polls ++ [last]) = t.takeDue last := by
  subst made
  have one := oneEach_after requests
  refine ⟨one, fun now delay tile => ⟨cancel_eq_true_iff _ tile, rfl⟩,
    fun tile => ⟨cancel_eq_true_iff _ tile, rfl⟩, fun now => ?_, rfl, ?_,
    fun _ _ => one.takeDue_takeDue, fun _ _ => one.takeEach_eq⟩
  · refine ⟨_, rfl, perm_fired _ now, one.pairwise_fired now, ?_⟩
    exact List.filter_congr fun timer _ => (decide_not ..).symm
  · intro timer member nan now
    have never : ¬ timer.due ≤ now := fun due => by
      rw [(Binary64.numbers_of_le due).1] at nan
      cases nan
    have waits : timer ∈ ((after requests).takeDue now).2.pending :=
      List.mem_filter.mpr ⟨member, by simpa [isDue] using never⟩
    exact ⟨((one.runs_takeDue now timer.tile).mp ⟨timer, waits, rfl⟩).2, waits⟩

def fourTimers : List Request :=
  [.start 0 1 1, .start 0 1 2, .start 0 (0 / 0) 3, .start 0 0.5 4]

theorem two_polls_take_what_one_takes :
    ∃ t, after fourTimers = t ∧
      (t.takeDue 0.5).1 ++ ((t.takeDue 0.5).2.takeDue 1).1 = [4, 1, 2] ∧
      ((t.takeDue 0.5).2.takeDue 1).2.pending.map (·.tile) = [3] ∧
      3 ∉ (t.takeDue 1).1 ∧ t.takeEach [0, 0.5, 1] = t.takeDue 1 := by
  obtain ⟨-, -, -, -, -, never, twice, each⟩ := due_timers_are_taken_in_order fourTimers rfl
  obtain ⟨taken, left⟩ := twice 0.5 1 (by decide +kernel)
  refine ⟨_, rfl, taken.trans ?_, ?_, ?_, each [0, 0.5] 1 (by decide +kernel)⟩
  · have due : (after fourTimers).pending.filter (isDue 1) = [⟨1, 1⟩, ⟨1, 2⟩, ⟨0.5, 4⟩] := by
      decide +kernel
    have tie : noLater ⟨1, 1⟩ ⟨1, 2⟩ = true := by decide +kernel
    have swapped : noLater ⟨1, 1⟩ ⟨0.5, 4⟩ = false := by decide +kernel
    simp [takeDue, due, List.mergeSort, List.MergeSort.Internal.splitInTwo, tie, swapped]
  · rw [left]
    decide +kernel
  · exact (never ⟨0 + Binary64.widen (0 / 0), 3⟩ (by decide +kernel) (by decide +kernel) 1).1

/-- Negative zero is equal to zero, but of two timers due then the one at negative zero is taken first,
also when it was started last. -/
theorem negative_zero_is_taken_first :
    (after [.start 0 0 1, .start (-0) (-0) 2]).pending = [⟨0, 1⟩, ⟨-0, 2⟩] ∧
      ((0 : Float) == -0) = true ∧
      ((after [.start 0 0 1, .start (-0) (-0) 2]).takeDue 0).1 = [2, 1] := by
  have pending : (after [.start 0 0 1, .start (-0) (-0) 2]).pending = [⟨0, 1⟩, ⟨-0, 2⟩] := by
    decide +kernel
  have due : [⟨0, 1⟩, ⟨-0, 2⟩].filter (isDue 0) = [⟨0, 1⟩, ⟨-0, 2⟩] := by decide +kernel
  have swapped : noLater ⟨0, 1⟩ ⟨-0, 2⟩ = false := by decide +kernel
  refine ⟨pending, by decide +kernel, ?_⟩
  simp [takeDue, pending, due, List.mergeSort, List.MergeSort.Internal.splitInTwo, swapped]

end Timers
end Tilewalk
