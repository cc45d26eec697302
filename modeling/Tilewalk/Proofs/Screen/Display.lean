import Tilewalk.Proofs.Screen.Painting
import Tilewalk.Proofs.World.Operation

/-! Pictures painted one after another. Whatever the device showed before, after each of them it shows
the whole picture, and as long as size and phase stay it is sent the differences only. -/

set_option autoImplicit false

namespace Tilewalk.Screen

open Terminal

structure Request where
  world : World
  view : View
  width : Nat
  height : Nat

namespace Request

def frame (r : Request) : Frame := compose r.world r.view r.width r.height

def Inside (r : Request) (x y : Nat) : Prop := x < r.width ∧ y < r.height

structure Follows (r last : Request) : Prop where
  width : r.width = last.width
  height : r.height = last.height
  phase : r.world.phase = last.world.phase

end Request

namespace Painter

/-- The painter and both of its frames have a size. -/
structure Sized (p : Painter) (width height : Nat) : Prop where
  front : p.front.width = width ∧ p.front.height = height
  back : p.back.width = width ∧ p.back.height = height
  size : p.width = width ∧ p.height = height

def Blind (p : Painter) : Prop :=
  ∀ x y, x < p.width ∧ y < p.height → p.back.get x y = .unknown

variable {p : Painter} {phase : Phase} {width height : Nat}

theorem sized_resize (f : Frame) (width height : Nat) :
    (f.resize width height .blank).width = width ∧ (f.resize width height .blank).height = height := by
  unfold Raster.resize
  split
  · next same => exact same
  · exact ⟨rfl, rfl⟩

theorem Sized.forget (sized : p.Sized width height) : p.forget.Sized width height :=
  { sized with }

theorem Sized.blind_forget (sized : p.Sized width height) : p.forget.Blind := by
  intro x y inside
  have same : p.width = p.back.width ∧ p.height = p.back.height :=
    ⟨sized.size.1.trans sized.back.1.symm, sized.size.2.trans sized.back.2.symm⟩
  have within : x < p.back.width ∧ y < p.back.height := same.1 ▸ same.2 ▸ inside
  exact congrArg (·.getD Symbol.blank) (Raster.get?_fill Symbol.unknown within)

theorem sized_fit (p : Painter) (width height : Nat) : (p.fit width height).Sized width height :=
  ⟨sized_resize p.front width height, sized_resize p.back width height, rfl, rfl⟩

theorem blind_fit (p : Painter) (width height : Nat) : (p.fit width height).Blind :=
  Sized.blind_forget
    ⟨sized_resize p.front width height, sized_resize p.back width height, rfl, rfl⟩

theorem Sized.enterPhase (sized : p.Sized width height) (phase : Phase) :
    (p.enterPhase phase).Sized width height := by
  unfold Painter.enterPhase
  split
  · exact sized
  · exact { sized.forget with }

@[simp] theorem lastPhase_enterPhase (p : Painter) (phase : Phase) :
    (p.enterPhase phase).lastPhase = some phase := by
  unfold Painter.enterPhase
  split
  · next same => exact same
  · rfl

theorem Sized.blind_enterPhase (sized : p.Sized width height)
    (unknown : p.lastPhase = some phase → p.Blind) : (p.enterPhase phase).Blind := by
  unfold Painter.enterPhase
  split
  · next same => exact unknown same
  · exact sized.blind_forget

theorem prepare_of_same (size : p.width = width ∧ p.height = height)
    (same : p.lastPhase = some phase) : p.prepare phase width height = p := by
  obtain ⟨rfl, rfl⟩ := size
  simp [Painter.prepare, resized, Painter.enterPhase, same]

theorem Sized.prepare (sized : p.Sized p.width p.height) (phase : Phase) (width height : Nat) :
    (p.prepare phase width height).Sized width height := by
  unfold Painter.prepare
  split
  · exact (sized_fit p width height).enterPhase phase
  · next kept =>
    simp only [resized, decide_eq_true_eq, not_or, Decidable.not_not] at kept
    obtain ⟨rfl, rfl⟩ := kept
    exact sized.enterPhase phase

theorem Sized.blind_prepare (sized : p.Sized p.width p.height)
    (other : ¬ ((p.width = width ∧ p.height = height) ∧ p.lastPhase = some phase)) :
    (p.prepare phase width height).Blind := by
  unfold Painter.prepare
  split
  · exact (sized_fit p width height).blind_enterPhase fun _ => blind_fit p width height
  · next kept =>
    simp only [resized, decide_eq_true_eq, not_or, Decidable.not_not] at kept
    exact sized.blind_enterPhase fun same => absurd ⟨⟨kept.1.symm, kept.2.symm⟩, same⟩ other

def answer (p : Painter) (r : Request) : List Command × Painter :=
  p.render r.world r.view r.width r.height

def preparedFor (p : Painter) (r : Request) : Painter :=
  p.prepare r.world.phase r.width r.height

/-- The places at which the picture differs from what is taken for shown. -/
def stale (p : Painter) (r : Request) : List (Nat × Nat) :=
  changed (p.preparedFor r).back r.frame

/-- After a request the back frame is the picture that the terminal shows. -/
structure Tracks (last : Option Request) (p : Painter) (t : Terminal) : Prop where
  sized : p.Sized p.width p.height
  phase : p.lastPhase = last.map (·.world.phase)
  size : ∀ r ∈ last, p.width = r.width ∧ p.height = r.height
  shown : ∀ r ∈ last, p.back = r.frame ∧
    ∀ x y, r.Inside x y → t.shows x y = r.frame.get x y

variable {last : Option Request} {r : Request} {t t' : Terminal}

theorem tracks_takeOver (t : Terminal) (width height : Nat) :
    Tracks none (idle.takeOver width height).2 t where
  sized := sized_fit idle width height
  phase := rfl
  size := fun _ member => by cases member
  shown := fun _ member => by cases member

theorem Tracks.sized_prepared (tracks : Tracks last p t) (r : Request) :
    (p.preparedFor r).Sized r.width r.height :=
  tracks.sized.prepare r.world.phase r.width r.height

theorem Tracks.follows (tracks : Tracks last p t)
    (same : (p.width = r.width ∧ p.height = r.height) ∧ p.lastPhase = some r.world.phase) :
    ∃ l ∈ last, r.Follows l := by
  obtain ⟨size, phase⟩ := same
  cases last with
  | none => cases tracks.phase.symm.trans phase
  | some l =>
    obtain ⟨width, height⟩ := tracks.size l rfl
    have phases : l.world.phase = r.world.phase :=
      Option.some.inj (tracks.phase.symm.trans phase)
    exact ⟨l, rfl, size.1.symm.trans width, size.2.symm.trans height, phases.symm⟩

theorem Tracks.preparedFor_of_follows (tracks : Tracks last p t) {l : Request} (member : l ∈ last)
    (follows : r.Follows l) : p.preparedFor r = p := by
  cases member
  obtain ⟨width, height⟩ := tracks.size l rfl
  refine prepare_of_same ⟨width.trans follows.width.symm, height.trans follows.height.symm⟩ ?_
  rw [tracks.phase, Option.map_some, follows.phase]

/-- What the painter takes for shown is shown, if nothing has disturbed the terminal in between. -/
theorem Tracks.known (tracks : Tracks last p t)
    (undisturbed : ∀ l ∈ last, r.Follows l → t'.shows = t.shows) {x y : Nat}
    (inside : r.Inside x y) :
    (p.preparedFor r).back.get x y = .unknown ∨
      t'.shows x y = (p.preparedFor r).back.get x y := by
  -- Either the painter goes on from the last picture, or it takes nothing for known.
  by_cases same : (p.width = r.width ∧ p.height = r.height) ∧ p.lastPhase = some r.world.phase
  · obtain ⟨l, member, follows⟩ := tracks.follows same
    obtain ⟨back, shown⟩ := tracks.shown l member
    have within : l.Inside x y := ⟨follows.width ▸ inside.1, follows.height ▸ inside.2⟩
    rw [tracks.preparedFor_of_follows member follows, back, undisturbed l member follows]
    exact .inr (shown x y within)
  · obtain ⟨width, height⟩ := (tracks.sized_prepared r).size
    refine .inl (tracks.sized.blind_prepare same x y ?_)
    exact ⟨Nat.lt_of_lt_of_eq inside.1 width.symm, Nat.lt_of_lt_of_eq inside.2 height.symm⟩

theorem Sized.answer_eq (sized : (p.preparedFor r).Sized r.width r.height) :
    p.answer r
      = ((if p.resized r.width r.height then [.setBackground .base, .clear] else [])
          ++ paint (p.preparedFor r).back r.frame,
        { p.preparedFor r with front := (p.preparedFor r).back, back := r.frame }) := by
  have drawn : draw r.world r.view ((p.preparedFor r).front.refill .blank) = r.frame := by
    rw [Raster.refill, sized.front.1, sized.front.2]
    rfl
  rw [← drawn]
  rfl

theorem Tracks.leaves_cleared (tracks : Tracks last p t)
    (undisturbed : ∀ l ∈ last, r.Follows l → t'.shows = t.shows) :
    ∃ u, Leaves t' (if p.resized r.width r.height then [.setBackground .base, .clear] else []) [] u ∧
      ∀ l ∈ last, r.Follows l → u.shows = t.shows := by
  split
  · next resized =>
    refine ⟨_, ⟨rfl, rfl⟩, fun l member follows => ?_⟩
    obtain ⟨width, height⟩ := tracks.size l member
    -- The screen is cleared for another size only, and then no picture is followed.
    rcases of_decide_eq_true resized with other | other
    · exact absurd (follows.width.trans width.symm) other
    · exact absurd (follows.height.trans height.symm) other
  · exact ⟨t', ⟨rfl, rfl⟩, undisturbed⟩

theorem Tracks.answer (tracks : Tracks last p t) (r : Request)
    (undisturbed : ∀ l ∈ last, r.Follows l → t'.shows = t.shows) :
    ∃ u, Leaves t' (p.answer r).1 (p.stale r) u ∧ Tracks (some r) (p.answer r).2 u := by
  have sized := tracks.sized_prepared r
  have width : r.frame.width = r.width := width_compose r.world r.view r.width r.height
  have height : r.frame.height = r.height := height_compose r.world r.view r.width r.height
  obtain ⟨v, cleared, kept⟩ := tracks.leaves_cleared undisturbed
  have legible : r.frame.Legible := legible_compose r.world r.view r.width r.height
  obtain ⟨u, painted, shows⟩ := leaves_paint (t := v) legible fun x y inside =>
    tracks.known kept ⟨Nat.lt_of_lt_of_eq inside.1 width, Nat.lt_of_lt_of_eq inside.2 height⟩
  have phase : (p.preparedFor r).lastPhase = some r.world.phase := lastPhase_enterPhase _ _
  have leaves := cleared.append painted
  rw [List.nil_append] at leaves
  rw [sized.answer_eq]
  refine ⟨u, leaves, ?_, phase, ?_, ?_⟩
  · obtain ⟨sameWidth, sameHeight⟩ := sized.size
    exact ⟨⟨sized.back.1.trans sameWidth.symm, sized.back.2.trans sameHeight.symm⟩,
      ⟨width.trans sameWidth.symm, height.trans sameHeight.symm⟩, rfl, rfl⟩
  · rintro _ ⟨⟩
    exact sized.size
  · rintro _ ⟨⟩
    refine ⟨rfl, fun x y inside => shows x y ?_⟩
    exact ⟨Nat.lt_of_lt_of_eq inside.1 width.symm, Nat.lt_of_lt_of_eq inside.2 height.symm⟩

theorem Tracks.mem_stale (tracks : Tracks last p t) {l : Request} (member : l ∈ last)
    (follows : r.Follows l) {x y : Nat} :
    (x, y) ∈ p.stale r ↔ r.Inside x y ∧ r.frame.get x y ≠ l.frame.get x y := by
  rw [stale, tracks.preparedFor_of_follows member follows, (tracks.shown l member).1]
  simp [Request.frame, Request.Inside]

end Painter

/-- A device that obeys as a terminal does. Only the characters in `plain` are sure to take one column
each; of what others do to the screen nothing is known. -/
structure Display where
  State : Type
  look : State → Terminal
  obey : State → Command → State
  plain : Char → Prop
  look_obey : ∀ s command, (∀ c, command = .print c → plain c) →
    look (obey s command) = (look s).obey command

namespace Display

variable {d : Display}

def obeyAll (d : Display) (s : d.State) (commands : List Command) : d.State :=
  commands.foldl d.obey s

def printed (d : Display) (s : d.State) : List Command → List (Nat × Nat)
  | [] => []
  | .print c :: rest => (d.look s).cursor :: printed d (d.obey s (.print c)) rest
  | c :: rest => printed d (d.obey s c) rest

theorem look_obeyAll {commands : List Command} (plain : ∀ c, .print c ∈ commands → d.plain c)
    (s : d.State) :
    d.look (d.obeyAll s commands) = (d.look s).obeyAll commands ∧
      d.printed s commands = (d.look s).printed commands := by
  -- The state of the device is general: only what it shows is known after each command.
  induction commands generalizing s with
  | nil => exact ⟨rfl, rfl⟩
  | cons command rest ih =>
    have first : d.look (d.obey s command) = (d.look s).obey command :=
      d.look_obey s command fun c same => plain c (same ▸ List.mem_cons_self)
    obtain ⟨after, printed⟩ :=
      ih (fun c member => plain c (List.mem_cons_of_mem _ member)) (d.obey s command)
    rw [first] at after printed
    refine ⟨after, ?_⟩
    cases command <;> simp only [Display.printed, Terminal.printed, printed]

end Display

/-- Every character of the picture takes one column on the device. -/
def Request.PlainOn (r : Request) (d : Display) : Prop :=
  ∀ x y s, r.frame.get? x y = some s → d.plain s.char

/-- A painter takes a device over and paints pictures on it one after another. What happens to the
device between two of them matters only as long as size and phase stay. -/
inductive Paints (d : Display) : Option Request → Painter → d.State → Prop where
  | starts (s : d.State) (width height : Nat) :
      Paints d none (Painter.idle.takeOver width height).2
        (d.obeyAll s (Painter.idle.takeOver width height).1)
  | paints {last : Option Request} {p : Painter} {s s' : d.State} {r : Request} :
      Paints d last p s → (∀ l ∈ last, r.Follows l → (d.look s').shows = (d.look s).shows) →
      r.PlainOn d → Paints d (some r) (p.answer r).2 (d.obeyAll s' (p.answer r).1)

namespace Painter

variable {p : Painter} {r : Request} {d : Display} {last : Option Request} {s s' : d.State}

theorem Sized.plain_answer (sized : (p.preparedFor r).Sized r.width r.height)
    (plain : r.PlainOn d) (c : Char) (member : .print c ∈ (p.answer r).1) : d.plain c := by
  rw [sized.answer_eq] at member
  have painted : .print c ∈ paint (p.preparedFor r).back r.frame := by
    rcases List.mem_append.mp member with cleared | painted
    · simp at cleared
    · exact painted
  obtain ⟨x, y, s, found, rfl⟩ := exists_of_mem_paint painted
  exact plain x y s found

theorem Tracks.leaves_obeyAll (tracks : Tracks last p (d.look s))
    (undisturbed : ∀ l ∈ last, r.Follows l → (d.look s').shows = (d.look s).shows)
    (plain : r.PlainOn d) :
    Tracks (some r) (p.answer r).2 (d.look (d.obeyAll s' (p.answer r).1)) ∧
      d.printed s' (p.answer r).1 = p.stale r := by
  obtain ⟨look, printed⟩ :=
    Display.look_obeyAll ((tracks.sized_prepared r).plain_answer plain) s'
  obtain ⟨u, leaves, after⟩ := tracks.answer r undisturbed
  rw [look, printed, leaves.after]
  exact ⟨after, leaves.printed⟩

theorem tracks_of_paints (paints : Paints d last p s) : Tracks last p (d.look s) := by
  induction paints with
  | starts => exact tracks_takeOver _ _ _
  | paints _ undisturbed plain ih => exact (ih.leaves_obeyAll undisturbed plain).1

/-- After each picture the device shows it as a whole, each place was printed at most once, and after
a picture of the same size in the same phase exactly the places where the two differ were. -/
theorem screen_shows_picture (painted : Paints d last p s)
    (undisturbed : ∀ l ∈ last, r.Follows l → (d.look s').shows = (d.look s).shows)
    (plain : r.PlainOn d) :
    (∀ x y, r.Inside x y →
      (d.look (d.obeyAll s' (p.answer r).1)).shows x y = r.frame.get x y) ∧
    (d.printed s' (p.answer r).1).Nodup ∧
    (∀ l ∈ last, r.Follows l → ∀ x y, (x, y) ∈ d.printed s' (p.answer r).1 ↔
      r.Inside x y ∧ r.frame.get x y ≠ l.frame.get x y) := by
  have tracks := tracks_of_paints painted
  obtain ⟨after, printed⟩ := tracks.leaves_obeyAll undisturbed plain
  rw [printed]
  refine ⟨fun x y inside => (after.shown r rfl).2 x y inside, nodup_changed _ _, ?_⟩
  intro l member follows x y
  exact tracks.mem_stale member follows

end Painter

/-! ## The row on a device -/

def isBasic (c : Char) : Bool := decide (' ' ≤ c ∧ c ≤ '~')

def Display.lined : Display where
  State := Terminal
  look := id
  obey t command :=
    if command = .print '\n' then { t with cursor := (0, t.cursor.2 + 1) } else t.obey command
  plain c := isBasic c = true
  look_obey := fun _ _ plain => if_neg fun feed => absurd (plain _ feed) (by decide)

theorem Request.plainOn_lined {r : Request}
    (basic : r.frame.spots.all (fun s => isBasic s.char) = true) : r.PlainOn .lined := by
  intro x y s found
  unfold Raster.get? at found
  split at found
  · exact Array.all_eq_true_iff_forall_mem.mp basic s (Array.mem_of_getElem? found)
  · cases found

def rowRequest (w : World) (cursor : Cell) : Request := ⟨w, .opened cursor 0 1, 4, 7⟩

/-- Of the title nothing is printed again when the cursor moves, but the cell that it left is. -/
theorem row_repainted_for_moved_cursor :
    ∃ w p s, World.opened World.row ⟨⟨0, 0.5, 0⟩, .identity⟩ .standard (.stepping 0 1) = .ok w ∧
      Paints .lined (some (rowRequest w ⟨0, 0⟩)) p s ∧
      (rowRequest w ⟨0, 1⟩).Follows (rowRequest w ⟨0, 0⟩) ∧
      (rowRequest w ⟨0, 1⟩).PlainOn .lined ∧
      (∀ x y, (rowRequest w ⟨0, 1⟩).Inside x y →
        (Display.lined.look (Display.lined.obeyAll s (p.answer (rowRequest w ⟨0, 1⟩)).1)).shows x y
          = (rowRequest w ⟨0, 1⟩).frame.get x y) ∧
      (1, 5) ∈ Display.lined.printed s (p.answer (rowRequest w ⟨0, 1⟩)).1 ∧
      (0, 0) ∉ Display.lined.printed s (p.answer (rowRequest w ⟨0, 1⟩)).1 := by
  have composed : (World.opened World.row ⟨⟨0, 0.5, 0⟩, .identity⟩ .standard
      (.stepping 0 1)).toOption.any (fun w =>
        let first := (rowRequest w ⟨0, 0⟩).frame
        let second := (rowRequest w ⟨0, 1⟩).frame
        first.spots.all (fun s => isBasic s.char) && second.spots.all (fun s => isBasic s.char) &&
        decide (second.get 1 5 ≠ first.get 1 5 ∧ second.get 0 0 = first.get 0 0)) = true := by
    decide +kernel
  obtain ⟨w, opened, checked⟩ := World.exists_of_any composed
  obtain ⟨basic, places⟩ := Bool.and_eq_true_iff.mp checked
  obtain ⟨first, second⟩ := Bool.and_eq_true_iff.mp basic
  obtain ⟨differs, same⟩ := of_decide_eq_true places
  obtain ⟨p, s, painted⟩ : ∃ p s, Paints .lined (some (rowRequest w ⟨0, 0⟩)) p s := by
    let blank : Display.lined.State := (⟨fun _ _ => .blank, (0, 0), .white, .black⟩ : Terminal)
    have start := Paints.starts (d := .lined) blank 4 7
    have undisturbed : ∀ l ∈ (none : Option Request), (rowRequest w ⟨0, 0⟩).Follows l →
        (Display.lined.look blank).shows = (Display.lined.look (Display.lined.obeyAll blank
          (Painter.idle.takeOver 4 7).1)).shows := fun _ member => by cases member
    exact ⟨_, _, start.paints undisturbed (Request.plainOn_lined first)⟩
  have follows : (rowRequest w ⟨0, 1⟩).Follows (rowRequest w ⟨0, 0⟩) := ⟨rfl, rfl, rfl⟩
  have plain := Request.plainOn_lined second
  obtain ⟨shows, -, printed⟩ := Painter.screen_shows_picture painted (fun _ _ _ => rfl) plain
  refine ⟨w, p, s, opened, painted, follows, plain, shows, ?_, ?_⟩
  · exact (printed _ rfl follows 1 5).mpr ⟨⟨(by decide : 1 < 4), (by decide : 5 < 7)⟩, differs⟩
  · exact fun member => ((printed _ rfl follows 0 0).mp member).2 same

end Tilewalk.Screen
