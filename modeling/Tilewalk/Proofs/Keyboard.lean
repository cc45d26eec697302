import Mathlib.Data.List.Induction
import Tilewalk.Keyboard

/-! Held keys and fresh presses over a whole record of strokes. A key is held because of its last press
alone, so two fresh presses of a key have a release or a long silence between them, and other keys have
no part in it. -/

set_option autoImplicit false

namespace Tilewalk

namespace Keyboard

/-- A stroke of a key with the time at which it was made and the time at which it is read. -/
structure Entry where
  made : Nat
  read : Nat
  action : KeyAction
  stroke : KeyStroke
deriving DecidableEq

namespace Entry

def Presses (e : Entry) (key : Key) : Prop := e.stroke.key = key ∧ e.action ≠ .release

def LetsGo (honors : Bool) (e : Entry) (key : Key) : Prop :=
  e.stroke.key = key ∧ e.action = .release ∧ honors = true

instance (e : Entry) (key : Key) : Decidable (e.Presses key) :=
  inferInstanceAs (Decidable (_ ∧ _))

instance (honors : Bool) (e : Entry) (key : Key) : Decidable (e.LetsGo honors key) :=
  inferInstanceAs (Decidable (_ ∧ _ ∧ _))

end Entry

def enter (k : Keyboard) (e : Entry) : Keyboard := k.record e.read e.made e.action e.stroke

def after (honors : Bool) (entries : List Entry) : Keyboard := entries.foldl enter (idle honors)

variable {k : Keyboard} {honors : Bool} {entries : List Entry} {key : Key} {e : Entry}

@[simp] theorem after_append_singleton (honors : Bool) (entries : List Entry) (e : Entry) :
    after honors (entries ++ [e]) = (after honors entries).enter e := by
  rw [after, List.foldl_append]
  rfl

/-! ## One stroke -/

theorem enter_of_press (k : Keyboard) (down : e.action ≠ .release) :
    k.enter e = ⟨(e.stroke.key, e.made) :: k.lastActive.filter (·.1 != e.stroke.key),
      if k.isHeld e.read e.stroke.key then k.fresh else k.fresh ++ [e.stroke.key],
      k.strokes ++ [e.stroke], k.honorsRelease⟩ := by
  cases action : e.action with
  | release => exact absurd action down
  | _ =>
    simp only [enter, record, action]
    split
    · next held => exact (if_pos held).symm ▸ rfl
    · next free => exact (if_neg free).symm ▸ rfl

theorem enter_of_release (k : Keyboard) (up : e.action = .release) :
    k.enter e = ⟨if k.honorsRelease then k.lastActive.filter (·.1 != e.stroke.key) else k.lastActive,
      k.fresh, k.strokes ++ [e.stroke], k.honorsRelease⟩ := by
  simp only [enter, record, up]
  split <;> rfl

@[simp] theorem honorsRelease_enter (k : Keyboard) (e : Entry) :
    (k.enter e).honorsRelease = k.honorsRelease := by
  by_cases up : e.action = .release
  · rw [k.enter_of_release up]
  · rw [k.enter_of_press up]

@[simp] theorem honorsRelease_after (honors : Bool) (entries : List Entry) :
    (after honors entries).honorsRelease = honors := by
  induction entries using List.reverseRecOn with
  | nil => rfl
  | append_singleton entries e ih => simp [ih]

theorem lookup_filter_ne (table : List (Key × Nat)) (key other : Key) :
    (table.filter (·.1 != key)).lookup other = if other = key then none else table.lookup other := by
  induction table with
  | nil => simp
  | cons entry rest ih =>
    by_cases gone : entry.1 = key
    · rw [List.filter_cons_of_neg (by simpa using gone), ih]
      grind
    · rw [List.filter_cons_of_pos (by simpa using gone)]
      grind

theorem lookup_enter (k : Keyboard) (e : Entry) (key : Key) :
    (k.enter e).lastActive.lookup key =
      if e.Presses key then some e.made
      else if e.LetsGo k.honorsRelease key then none
      else k.lastActive.lookup key := by
  by_cases up : e.action = .release
  · have silent : ¬ e.Presses key := fun pressed => pressed.2 up
    rw [if_neg silent, k.enter_of_release up]
    by_cases lets : e.LetsGo k.honorsRelease key
    · rw [if_pos lets, if_pos lets.2.2]
      exact (lookup_filter_ne _ _ _).trans (if_pos lets.1.symm)
    · rw [if_neg lets]
      split
      · next honors =>
        have other : e.stroke.key ≠ key := fun same => lets ⟨same, up, honors⟩
        exact (lookup_filter_ne _ _ _).trans (if_neg other.symm)
      · rfl
  · have kept : ¬ e.LetsGo k.honorsRelease key := fun lets => up lets.2.1
    rw [if_neg kept, k.enter_of_press up, List.lookup_cons]
    by_cases same : e.stroke.key = key
    · rw [if_pos ⟨same, up⟩, beq_iff_eq.mpr same.symm]
    · rw [if_neg fun pressed => same pressed.1, beq_eq_false_iff_ne.mpr (Ne.symm same)]
      exact (lookup_filter_ne _ _ _).trans (if_neg (Ne.symm same))

theorem fresh_enter (k : Keyboard) (e : Entry) :
    (k.enter e).fresh = if e.action ≠ .release ∧ k.isHeld e.read e.stroke.key = false then
      k.fresh ++ [e.stroke.key] else k.fresh := by
  by_cases up : e.action = .release
  · have idle : ¬ (e.action ≠ .release ∧ k.isHeld e.read e.stroke.key = false) :=
      fun fresh => fresh.1 up
    rw [k.enter_of_release up, if_neg idle]
  · rw [k.enter_of_press up]
    cases k.isHeld e.read e.stroke.key <;> simp [up]

/-! ## All strokes -/

/-- The entry is the last press of the key, and the key was not let go after it. -/
def LastPress (honors : Bool) (entries : List Entry) (key : Key) (e : Entry) : Prop :=
  ∃ front back, entries = front ++ e :: back ∧ e.Presses key ∧
    ∀ later ∈ back, ¬ later.Presses key ∧ ¬ later.LetsGo honors key

theorem lastPress_append_singleton {last : Entry} :
    LastPress honors (entries ++ [last]) key e ↔ e = last ∧ last.Presses key ∨
      LastPress honors entries key e ∧ ¬ last.Presses key ∧ ¬ last.LetsGo honors key := by
  constructor
  · rintro ⟨front, back, split, presses, silent⟩
    rcases back.eq_nil_or_concat with rfl | ⟨back, final, rfl⟩
    · obtain ⟨-, same⟩ := List.append_inj' split rfl
      obtain rfl := (List.cons.inj same).1
      exact .inl ⟨rfl, presses⟩
    · have rearranged : entries ++ [last] = (front ++ e :: back) ++ [final] := by simpa using split
      obtain ⟨before, same⟩ := List.append_inj' rearranged rfl
      obtain rfl := (List.cons.inj same).1
      rw [List.concat_eq_append] at silent
      refine .inr ⟨⟨front, back, before, presses, fun later member => ?_⟩, ?_⟩
      · exact silent later (List.mem_append_left _ member)
      · exact silent last (List.mem_append_right _ List.mem_cons_self)
  · rintro (⟨rfl, presses⟩ | ⟨⟨front, back, rfl, presses, silent⟩, quiet⟩)
    · exact ⟨entries, [], rfl, presses, by simp⟩
    · refine ⟨front, back ++ [last], by simp, presses, fun later member => ?_⟩
      rcases List.mem_append.mp member with before | final
      · exact silent later before
      · rwa [List.mem_singleton.mp final]

theorem lookup_after (honors : Bool) (entries : List Entry) (key : Key) (time : Nat) :
    (after honors entries).lastActive.lookup key = some time ↔
      ∃ e, LastPress honors entries key e ∧ e.made = time := by
  induction entries using List.reverseRecOn with
  | nil => simp [after, idle, LastPress]
  | append_singleton entries last ih =>
    simp only [after_append_singleton, lookup_enter, honorsRelease_after, lastPress_append_singleton]
    split
    · next presses => simp [presses]
    · next quiet =>
      split
      · next lets => simp [quiet, lets]
      · next kept => simp [quiet, kept, ih]

theorem isHeld_after (honors : Bool) (entries : List Entry) (key : Key) (now : Nat) :
    (after honors entries).isHeld now key = true ↔
      ∃ e, LastPress honors entries key e ∧ now < e.made + holdTime := by
  have recent (time : Nat) : now - time < holdTime ↔ now < time + holdTime := by
    simp only [holdTime]
    omega
  constructor
  · intro held
    cases last : (after honors entries).lastActive.lookup key with
    | none => simp [isHeld, last] at held
    | some time =>
      obtain ⟨e, final, rfl⟩ := (lookup_after honors entries key time).mp last
      refine ⟨e, final, (recent e.made).mp ?_⟩
      simpa [isHeld, last] using held
  · rintro ⟨e, final, soon⟩
    have last := (lookup_after honors entries key e.made).mpr ⟨e, final, rfl⟩
    simpa [isHeld, last] using (recent e.made).mpr soon

theorem exists_last {p : Entry} (member : p ∈ entries) (presses : p.Presses key) :
    ∃ front last back, entries = front ++ last :: back ∧ last.Presses key ∧
      ∀ later ∈ back, ¬ later.Presses key := by
  induction entries using List.reverseRecOn with
  | nil => cases member
  | append_singleton entries e ih =>
    by_cases final : e.Presses key
    · exact ⟨entries, e, [], rfl, final, by simp⟩
    · have earlier : p ∈ entries := by
        rcases List.mem_append.mp member with before | same
        · exact before
        · rw [List.mem_singleton.mp same] at presses
          exact absurd presses final
      obtain ⟨front, last, back, rfl, down, silent⟩ := ih earlier
      refine ⟨front, last, back ++ [e], by simp, down, fun later member => ?_⟩
      rcases List.mem_append.mp member with before | same
      · exact silent later before
      · rwa [List.mem_singleton.mp same]

/-! ## Other keys -/

theorem isHeld_congr {u : Keyboard} (last : k.lastActive.lookup key = u.lastActive.lookup key)
    (now : Nat) : k.isHeld now key = u.isHeld now key := by
  rw [isHeld, isHeld, last]

theorem wasPressed_enter (k : Keyboard) (e : Entry) (key : Key) : (k.enter e).wasPressed key
    = (k.wasPressed key || decide (e.Presses key ∧ k.isHeld e.read key = false)) := by
  rw [wasPressed, fresh_enter]
  split
  · next fresh =>
    by_cases same : e.stroke.key = key
    · subst same
      simp [wasPressed, Entry.Presses, fresh]
    · have other : key ≠ e.stroke.key := Ne.symm same
      simp [wasPressed, Entry.Presses, same, other]
  · next old =>
    have idle : ¬ (e.Presses key ∧ k.isHeld e.read key = false) := by
      rintro ⟨⟨rfl, down⟩, free⟩
      exact old ⟨down, free⟩
    simp [wasPressed, idle]

/-- The same is known of a key when its own strokes alone are recorded. -/
theorem after_filter (honors : Bool) (entries : List Entry) (key : Key) :
    (after honors (entries.filter (·.stroke.key = key))).lastActive.lookup key
        = (after honors entries).lastActive.lookup key ∧
      (after honors (entries.filter (·.stroke.key = key))).wasPressed key
        = (after honors entries).wasPressed key := by
  induction entries using List.reverseRecOn with
  | nil => exact ⟨rfl, rfl⟩
  | append_singleton entries e ih =>
    obtain ⟨last, pressed⟩ := ih
    simp only [List.filter_append, after_append_singleton]
    by_cases own : e.stroke.key = key
    · have kept : [e].filter (·.stroke.key = key) = [e] := by simp [own]
      simp [kept, lookup_enter, wasPressed_enter, last, pressed, isHeld_congr last]
    · have dropped : [e].filter (·.stroke.key = key) = [] := by simp [own]
      have still : ¬ e.Presses key := fun presses => own presses.1
      have kept : ¬ e.LetsGo (after honors entries).honorsRelease key := fun lets => own lets.1
      rw [dropped, List.append_nil, lookup_enter, if_neg still, if_neg kept, wasPressed_enter]
      exact ⟨last, by simp [still, pressed]⟩

/-! ## Fresh presses -/

/-- The keyboard takes the stroke for a fresh press of the key. -/
def Freshens (k : Keyboard) (e : Entry) (key : Key) : Prop :=
  (k.enter e).fresh = k.fresh ++ [key]

theorem freshens_iff : k.Freshens e key ↔ e.Presses key ∧ k.isHeld e.read key = false := by
  rw [Freshens, fresh_enter]
  constructor
  · intro fresh
    split at fresh
    · next presses =>
      obtain rfl := (List.cons.inj (List.append_cancel_left fresh)).1
      exact ⟨⟨rfl, presses.1⟩, presses.2⟩
    · simp at fresh
  · rintro ⟨⟨rfl, down⟩, free⟩
    exact if_pos ⟨down, free⟩

/-- Without a release in between, a key that is free again has been silent for long enough. -/
theorem exists_silence {front between : List Entry} {p q : Entry} (presses : p.Presses key)
    (free : (after honors (front ++ p :: between)).isHeld q.read key = false)
    (kept : ∀ e ∈ between, ¬ e.LetsGo honors key) :
    ∃ early last silence, p :: between = early ++ last :: silence ∧ last.Presses key ∧
      (∀ e ∈ silence, ¬ e.Presses key) ∧ last.made + holdTime ≤ q.read := by
  obtain ⟨early, last, silence, split, down, silent⟩ := exists_last List.mem_cons_self presses
  refine ⟨early, last, silence, split, down, silent, Nat.le_of_not_lt fun soon => ?_⟩
  -- Nothing in the silence lets the key go, so its last press would still hold it.
  have final : LastPress honors (front ++ p :: between) key last := by
    refine ⟨front ++ early, silence, by rw [split, List.append_assoc], down, fun e member => ?_⟩
    refine ⟨silent e member, fun lets => ?_⟩
    have later : e ∈ p :: between := split ▸ List.mem_append_right _ (List.mem_cons_of_mem _ member)
    rcases List.mem_cons.mp later with rfl | inside
    · exact presses.2 lets.2.1
    · exact kept e inside lets
  rw [(isHeld_after honors _ key q.read).mpr ⟨last, final, soon⟩] at free
  cases free

/-- A key is held by its last press alone, and exactly the presses of keys that are not held are fresh.
So two fresh presses of a key have a release of it between them, or a silence before the second; and
the strokes of other keys have no part in this. -/
theorem fresh_presses_are_apart (honors : Bool) (entries : List Entry) (key : Key) :
    (∀ now, (after honors entries).isHeld now key = true ↔
      ∃ e, LastPress honors entries key e ∧ now < e.made + holdTime) ∧
    (∀ e, ((after honors entries).enter e).fresh =
      if e.action ≠ .release ∧ (after honors entries).isHeld e.read e.stroke.key = false then
        (after honors entries).fresh ++ [e.stroke.key]
      else (after honors entries).fresh) ∧
    (∀ front p between q, (after honors front).Freshens p key →
      (after honors (front ++ p :: between)).Freshens q key →
      (∃ e ∈ between, e.LetsGo honors key) ∨
        ∃ early last silence, p :: between = early ++ last :: silence ∧ last.Presses key ∧
          (∀ e ∈ silence, ¬ e.Presses key) ∧ last.made + holdTime ≤ q.read) ∧
    (∀ now, (after honors (entries.filter (·.stroke.key = key))).isHeld now key
      = (after honors entries).isHeld now key) ∧
    (after honors (entries.filter (·.stroke.key = key))).wasPressed key
      = (after honors entries).wasPressed key := by
  obtain ⟨last, pressed⟩ := after_filter honors entries key
  refine ⟨isHeld_after honors entries key, (after honors entries).fresh_enter, ?_,
    isHeld_congr last, pressed⟩
  intro front p between q first second
  have presses := (freshens_iff.mp first).1
  have free := (freshens_iff.mp second).2
  by_cases released : ∃ e ∈ between, e.LetsGo honors key
  · exact .inl released
  · exact .inr (exists_silence presses free fun e member lets => released ⟨e, member, lets⟩)

def space (millis : Nat) (action : KeyAction) : Entry :=
  ⟨millis * 1000000, millis * 1000000, action, ⟨.char ' ', false⟩⟩

def heldSpace : List Entry :=
  [space 0 .press, space 159 .repeated, ⟨200000000, 200000000, .press, ⟨.up, false⟩⟩,
    space 250 .release]

/-- The bar is held until 160 ms after it was repeated, and only then a press of it is fresh again. -/
theorem space_is_fresh_after_silence :
    (after false []).Freshens (space 0 .press) (.char ' ') ∧
    (after false heldSpace).isHeld 318999999 (.char ' ') = true ∧
    (after false heldSpace).Freshens (space 319 .press) (.char ' ') ∧
    ∃ early last silence, heldSpace = early ++ last :: silence ∧ last.Presses (.char ' ') ∧
      (∀ e ∈ silence, ¬ e.Presses (.char ' ')) ∧ last.made + holdTime ≤ 319000000 := by
  have first : (after false []).Freshens (space 0 .press) (.char ' ') := rfl
  have second : (after false heldSpace).Freshens (space 319 .press) (.char ' ') := rfl
  obtain ⟨-, -, apart, -⟩ := fresh_presses_are_apart false heldSpace (.char ' ')
  have kept : ¬ ∃ e ∈ heldSpace.tail, e.LetsGo false (.char ' ') := by decide
  refine ⟨first, rfl, second, ?_⟩
  exact (apart [] (space 0 .press) heldSpace.tail (space 319 .press) first second).resolve_left kept

end Keyboard
end Tilewalk
