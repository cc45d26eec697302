import Tilewalk.Proofs.Screen.Drawing
import Tilewalk.Screen.Painter

/-! Painting only the differences shows the whole picture. The pen knows what the terminal is set to,
the painter knows what it shows or takes it for unknown, and a place is printed exactly when it has to
change. -/

set_option autoImplicit false

namespace Tilewalk.Screen

namespace Terminal

def printed (t : Terminal) : List Command → List (Nat × Nat)
  | [] => []
  | .print c :: rest => t.cursor :: printed (t.obey (.print c)) rest
  | c :: rest => printed (t.obey c) rest

/-- Commands print at places and leave a terminal behind. -/
structure Leaves (t : Terminal) (commands : List Command) (places : List (Nat × Nat))
    (u : Terminal) : Prop where
  after : t.obeyAll commands = u
  printed : t.printed commands = places

variable {t u v : Terminal} {first rest : List Command}

@[simp] theorem printed_append :
    t.printed (first ++ rest) = t.printed first ++ (t.obeyAll first).printed rest := by
  induction first generalizing t with
  | nil => rfl
  | cons c more ih => cases c <;> simp [printed, obeyAll, ih]

theorem Leaves.append {places more : List (Nat × Nat)} (head : Leaves t first places u)
    (tail : Leaves u rest more v) : Leaves t (first ++ rest) (places ++ more) v where
  after := by rw [obeyAll, List.foldl_append, ← obeyAll, ← obeyAll, head.after, tail.after]
  printed := by simp [head.after, head.printed, tail.printed]

theorem leaves_unless {known : Prop} [Decidable known] {c : Command}
    (silent : t.printed [c] = []) (idle : known → t.obey c = t) :
    Leaves t (if known then [] else [c]) [] (t.obey c) := by
  split
  · next holds => exact ⟨(idle holds).symm, rfl⟩
  · exact ⟨rfl, silent⟩

def stamped (t : Terminal) (x y : Nat) (s : Symbol) : Terminal :=
  ⟨fun i j => if (i, j) = (x, y) then s else t.shows i j, (x + 1, y), s.fg, s.bg⟩

end Terminal

open Terminal

def spotPlace (spot : Nat × Nat × Symbol) : Nat × Nat := (spot.1, spot.2.1)

namespace Pen

/-- The terminal is set to what the pen takes for granted. -/
structure Holds (pen : Pen) (t : Terminal) : Prop where
  fg : t.fg = pen.fg
  bg : t.bg = pen.bg
  place : ∀ place, pen.place = some place → t.cursor = place

variable {pen : Pen} {t : Terminal}

theorem Holds.put (holds : pen.Holds t) (x y : Nat) (s : Symbol) :
    Leaves t (pen.put x y s).1 [(x, y)] (stamped t x y s) := by
  let moved : Terminal := { t with cursor := (x, y) }
  let coloured : Terminal := { moved with fg := s.fg }
  let ready : Terminal := { coloured with bg := s.bg }
  have move : Leaves t (if pen.place = some (x, y) then [] else [.moveTo x y]) [] moved :=
    leaves_unless rfl fun known => by rw [obey, ← holds.place _ known]
  have colour : Leaves moved (if s.fg = pen.fg then [] else [.setForeground s.fg]) [] coloured :=
    leaves_unless rfl fun known => by rw [obey, known, ← holds.fg]
  have back : Leaves coloured (if s.bg = pen.bg then [] else [.setBackground s.bg]) [] ready :=
    leaves_unless rfl fun known => by rw [obey, known, ← holds.bg]
  have print : Leaves ready [.print s.char] [(x, y)] (stamped t x y s) := ⟨rfl, rfl⟩
  exact ((move.append colour).append back).append print

theorem holds_put (t : Terminal) (pen : Pen) (x y : Nat) (s : Symbol) :
    (pen.put x y s).2.Holds (stamped t x y s) where
  fg := rfl
  bg := rfl
  place := fun _ known => Option.some.inj known

theorem Holds.putAll {spots : List (Nat × Nat × Symbol)} (holds : pen.Holds t)
    (distinct : (spots.map spotPlace).Nodup) :
    ∃ u, Leaves t (pen.putAll spots) (spots.map spotPlace) u ∧
      (∀ x y s, (x, y, s) ∈ spots → u.shows x y = s) ∧
      ∀ x y, (x, y) ∉ spots.map spotPlace → u.shows x y = t.shows x y := by
  induction spots generalizing pen t with
  | nil => exact ⟨t, ⟨rfl, rfl⟩, by simp, fun _ _ _ => rfl⟩
  | cons spot rest ih =>
    obtain ⟨i, j, sym⟩ := spot
    obtain ⟨fresh, distinct⟩ := List.nodup_cons.mp distinct
    obtain ⟨u, leaves, shown, kept⟩ := ih (holds_put t pen i j sym) distinct
    refine ⟨u, (holds.put i j sym).append leaves, fun x y s member => ?_, fun x y out => ?_⟩
    · rcases List.mem_cons.mp member with same | later
      · cases same
        -- No later symbol goes to the place of the first one.
        exact (kept i j fresh).trans (if_pos rfl)
      · exact shown x y s later
    · rw [List.map_cons, List.mem_cons, not_or] at out
      exact (kept x y out.2).trans (if_neg out.1)

theorem exists_of_mem_putAll {spots : List (Nat × Nat × Symbol)} {c : Char}
    (member : .print c ∈ pen.putAll spots) : ∃ spot ∈ spots, spot.2.2.char = c := by
  induction spots generalizing pen with
  | nil => cases member
  | cons spot rest ih =>
    rcases List.mem_append.mp member with first | later
    · have same : c = spot.2.2.char := by simpa [Pen.put] using first
      exact ⟨spot, List.mem_cons_self, same.symm⟩
    · obtain ⟨other, inRest, same⟩ := ih later
      exact ⟨other, List.mem_cons_of_mem _ inRest, same⟩

end Pen

namespace Painter

variable {shown new : Frame} {x y : Nat}

def changed (shown new : Frame) : List (Nat × Nat) :=
  new.places.filter fun place => new.get place.1 place.2 != shown.get place.1 place.2

@[simp] theorem mem_changed :
    (x, y) ∈ changed shown new ↔
      (x < new.width ∧ y < new.height) ∧ new.get x y ≠ shown.get x y := by
  simp [changed]

theorem nodup_changed (shown new : Frame) : (changed shown new).Nodup :=
  new.nodup_places.filter _

theorem places_differences (shown new : Frame) :
    (differences shown new).map spotPlace = changed shown new := by
  rw [differences, changed, List.map_filterMap, ← List.filterMap_eq_filter]
  congr 1
  funext ⟨x, y⟩
  by_cases same : new.get x y = shown.get x y <;> simp [same, spotPlace, Option.guard]

theorem mem_differences {s : Symbol} :
    (x, y, s) ∈ differences shown new ↔
      (x < new.width ∧ y < new.height) ∧ new.get x y ≠ shown.get x y ∧ new.get x y = s := by
  simp only [differences, List.mem_filterMap, Option.ite_none_left_eq_some, Option.some.injEq,
    Prod.mk.injEq]
  constructor
  · rintro ⟨⟨_, _⟩, place, differs, rfl, rfl, same⟩
    exact ⟨Raster.mem_places.mp place, differs, same⟩
  · rintro ⟨inside, differs, same⟩
    exact ⟨(x, y), Raster.mem_places.mpr inside, differs, rfl, rfl, same⟩

theorem get_ne_unknown (legible : new.Legible) (inside : x < new.width ∧ y < new.height) :
    new.get x y ≠ .unknown := by
  obtain ⟨s, found⟩ := Raster.get?_of_lt inside
  have background := legible x y s found
  rw [Frame.get, found]
  exact fun same => background (congrArg Symbol.bg same)

theorem exists_of_mem_paint {c : Char} (member : .print c ∈ paint shown new) :
    ∃ x y s, new.get? x y = some s ∧ s.char = c := by
  have printed : .print c ∈ Pen.initial.putAll (differences shown new) := by
    simpa [paint] using member
  obtain ⟨⟨x, y, s⟩, differs, same⟩ := Pen.exists_of_mem_putAll printed
  obtain ⟨inside, -, read⟩ := mem_differences.mp differs
  obtain ⟨a, there⟩ := Raster.get?_of_lt inside
  rw [Frame.get, there] at read
  exact ⟨x, y, a, there, (congrArg Symbol.char read).trans same⟩

/-- Where the new frame differs from the shown one it is printed, and afterwards it is shown as a
whole. -/
theorem leaves_paint {t : Terminal} (legible : new.Legible)
    (known : ∀ x y, x < new.width ∧ y < new.height →
      shown.get x y = .unknown ∨ t.shows x y = shown.get x y) :
    ∃ u, Leaves t (paint shown new) (changed shown new) u ∧
      ∀ x y, x < new.width ∧ y < new.height → u.shows x y = new.get x y := by
  let ready : Terminal := { t with fg := .white, bg := .base }
  have start : Pen.initial.Holds ready := ⟨rfl, rfl, fun _ known => by cases known⟩
  have distinct : ((differences shown new).map spotPlace).Nodup := by
    rw [places_differences]
    exact nodup_changed shown new
  obtain ⟨u, leaves, printed, kept⟩ := start.putAll distinct
  rw [places_differences] at leaves kept
  have colours : Leaves t [.setForeground .white, .setBackground .base] [] ready := ⟨rfl, rfl⟩
  refine ⟨u, colours.append leaves, fun x y inside => ?_⟩
  by_cases differs : new.get x y = shown.get x y
  · -- A place that is left out is not an unknown one, so the terminal shows the symbol already.
    have out : (x, y) ∉ changed shown new := fun member => (mem_changed.mp member).2 differs
    rcases known x y inside with unknown | shows
    · exact absurd (differs.trans unknown) (get_ne_unknown legible inside)
    · exact (kept x y out).trans (shows.trans differs.symm)
  · exact printed x y _ (mem_differences.mpr ⟨inside, differs, rfl⟩)

end Painter
end Tilewalk.Screen
