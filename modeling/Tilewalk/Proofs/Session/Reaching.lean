import Tilewalk.Proofs.Session.Navigation

/-! Which stages the keys lead to. A stage that does not load stops the way around the list in its
direction: a session gets to exactly those places to which every stage on the way loads. -/

set_option autoImplicit false

namespace Tilewalk

namespace Game

/-- From a place of the list every stage loads up to the one `way` places further around it, in the
direction of the sign of `way`. -/
def Clear (g : Game) (i : Nat) (way : Int) : Prop :=
  ∀ y, min 0 way ≤ y → y ≤ max 0 way → ∃ stage, g.Loads (wrapIndex i y g.stages.length) stage

variable {g : Game} {i : Nat} {way : Int}

theorem Clear.extend (clear : g.Clear i way) {step : Int} (one : step = 1 ∨ step = -1)
    {stage : Stage} (loads : g.Loads (wrapIndex i (way + step) g.stages.length) stage) :
    g.Clear i (way + step) := by
  intro y least most
  by_cases here : y = way + step
  · exact ⟨stage, here ▸ loads⟩
  · exact clear y (by omega) (by omega)

theorem Clear.of_step {step : Int} (one : step = 1 ∨ step = -1) {n : Nat}
    (clear : g.Clear i ((n + 1 : Nat) * step)) (positive : 0 < g.stages.length) :
    g.Clear (wrapIndex i step g.stages.length) (n * step) := by
  intro y least most
  rw [wrapIndex_wrapIndex _ _ _ positive]
  apply clear
  · rcases one with rfl | rfl <;> omega
  · rcases one with rfl | rfl <;> omega

end Game

namespace Session

variable {g : Game} {s u : Session}

theorem Plays.neighbour_eq (plays : Plays g s) (short : g.stages.length < 2 ^ 31)
    {pressed : Key → Bool} {step : Int32} (way : wayOf pressed = some step) :
    neighbour g s step = wrapIndex s.view.stageIndex step.toInt g.stages.length :=
  Session.neighbour_eq plays.inside short (wayOf_cases way)

def pressEach (g : Game) : List Key → Session → Except Fault Session
  | [], s => .ok s
  | key :: rest, s => do
    let s ← s.handleKeys g fun other => decide (other = key)
    pressEach g rest s

theorem pressEach_cons {key : Key} {rest : List Key} {v : Session}
    (handled : s.handleKeys g (fun other => decide (other = key)) = .ok v) :
    pressEach g (key :: rest) s = pressEach g rest v := by
  simp [pressEach, handled, bind, Except.bind]

theorem pressEach_cons_eq_ok {key : Key} {rest : List Key}
    (pressed : pressEach g (key :: rest) s = .ok u) :
    ∃ v, s.handleKeys g (fun other => decide (other = key)) = .ok v ∧ pressEach g rest v = .ok u := by
  cases handled : s.handleKeys g (fun other => decide (other = key)) with
  | error fault => simp [pressEach, handled, bind, Except.bind] at pressed
  | ok v => exact ⟨v, rfl, pressEach_cons handled ▸ pressed⟩

def IsWayKey (key : Key) : Prop := key = .char 'n' ∨ key = .char 'p'

theorem wayOf_single {key : Key} (leads : IsWayKey key) :
    ∃ step, wayOf (fun other => decide (other = key)) = some step := by
  rcases leads with rfl | rfl
  · exact ⟨1, by decide⟩
  · exact ⟨-1, by decide⟩

theorem Plays.press (plays : Plays g s) {key : Key} {step : Int32}
    (short : g.stages.length < 2 ^ 31)
    (way : wayOf (fun other => decide (other = key)) = some step) :
    ∃ v, s.handleKeys g (fun other => decide (other = key)) = .ok v ∧ Plays g v ∧
      ((∃ stage, g.Loads (neighbour g s step) stage) ∧ v.view.stageIndex = neighbour g s step ∨
        (∀ stage, ¬ g.Loads (neighbour g s step) stage) ∧
          v.view.stageIndex = s.view.stageIndex) := by
  have inside : neighbour g s step < g.stages.length := by
    rw [plays.neighbour_eq short way]
    exact wrapIndex_lt _ _ plays.positive
  -- Whether the next stage loads decides, and nothing else that is pressed counts with it.
  rcases Game.loads_or_fails inside with ⟨stage, loads⟩ | ⟨e, fails⟩
  · obtain ⟨v, opened⟩ := exists_openAt loads plays.number
    have index : v.view.stageIndex = neighbour g s step := stageIndex_of_openAt opened
    exact ⟨v, (handleKeys_of_way way s).trans (switch_of_openAt opened), .opened opened,
      .inl ⟨⟨stage, loads⟩, index⟩⟩
  · have handled := (handleKeys_of_way (g := g) way s).trans (switch_of_fails fails)
    exact ⟨_, handled, plays.keys handled, .inr ⟨fails.not_loads, rfl⟩⟩

theorem Plays.clear_of_pressEach (plays : Plays g s) (short : g.stages.length < 2 ^ 31) {i : Nat}
    {way : Int} {keys : List Key} (leads : ∀ key ∈ keys, IsWayKey key) (clear : g.Clear i way)
    (here : s.view.stageIndex = wrapIndex i way g.stages.length)
    (pressed : pressEach g keys s = .ok u) :
    ∃ way', g.Clear i way' ∧ u.view.stageIndex = wrapIndex i way' g.stages.length := by
  -- The way grows by a press that leads on and stays as it is when the next stage does not load.
  induction keys generalizing s way with
  | nil =>
    cases pressed
    exact ⟨way, clear, here⟩
  | cons key rest ih =>
    obtain ⟨v, handled, later⟩ := pressEach_cons_eq_ok pressed
    obtain ⟨step, leads'⟩ := wayOf_single (leads key List.mem_cons_self)
    have one := wayOf_cases leads'
    obtain ⟨v', handled', plays', outcome⟩ := plays.press short leads'
    cases handled.symm.trans handled'
    have others : ∀ other ∈ rest, IsWayKey other :=
      fun other member => leads other (List.mem_cons_of_mem _ member)
    have next : neighbour g s step = wrapIndex i (way + step.toInt) g.stages.length := by
      rw [plays.neighbour_eq short leads', here, wrapIndex_wrapIndex _ _ _ plays.positive]
    rcases outcome with ⟨⟨stage, loads⟩, moved⟩ | ⟨-, stayed⟩
    · exact ih plays' others (clear.extend one (next ▸ loads)) (moved.trans next) later
    · exact ih plays' others clear (stayed.trans here) later

theorem Plays.exists_presses (plays : Plays g s) (short : g.stages.length < 2 ^ 31) {key : Key}
    {step : Int32} (way : wayOf (fun other => decide (other = key)) = some step) (n : Nat)
    (clear : g.Clear s.view.stageIndex (n * step.toInt)) :
    ∃ u, pressEach g (List.replicate n key) s = .ok u ∧
      u.view.stageIndex = wrapIndex s.view.stageIndex (n * step.toInt) g.stages.length := by
  have one := wayOf_cases way
  -- The first press takes the first place of the way; from there the rest of it is clear.
  induction n generalizing s with
  | zero =>
    refine ⟨s, rfl, ?_⟩
    simp [plays.inside]
  | succ n ih =>
    obtain ⟨v, handled, plays', outcome⟩ := plays.press short way
    have next := plays.neighbour_eq short way
    have loads : ∃ stage, g.Loads (neighbour g s step) stage := by
      rw [next]
      apply clear step.toInt
      · rcases one with one | one <;> rw [one] <;> omega
      · rcases one with one | one <;> rw [one] <;> omega
    have moved : v.view.stageIndex = wrapIndex s.view.stageIndex step.toInt g.stages.length := by
      rcases outcome with ⟨-, moved⟩ | ⟨blocked, -⟩
      · exact moved.trans next
      · obtain ⟨stage, loads⟩ := loads
        exact absurd loads (blocked stage)
    have rest := clear.of_step one plays.positive
    rw [← moved] at rest
    obtain ⟨u, pressed, index⟩ := ih plays' rest
    refine ⟨u, (pressEach_cons handled).trans pressed, ?_⟩
    have sum : step.toInt + n * step.toInt = (n + 1 : Nat) * step.toInt := by push_cast; ring
    rw [index, moved, wrapIndex_wrapIndex _ _ _ plays.positive, sum]

/-- The keys `n` and `p` lead to a place of the list exactly when every stage on the way to it loads,
itself included, in one of the two directions around the list. -/
theorem reached_iff_clear (plays : Plays g s) (short : g.stages.length < 2 ^ 31) (place : Nat) :
    (∃ keys u, (∀ key ∈ keys, key = .char 'n' ∨ key = .char 'p') ∧ pressEach g keys s = .ok u ∧
        u.view.stageIndex = place) ↔
      ∃ way : Int, wrapIndex s.view.stageIndex way g.stages.length = place ∧
        ∀ y, min 0 way ≤ y → y ≤ max 0 way →
          ∃ stage, g.Loads (wrapIndex s.view.stageIndex y g.stages.length) stage := by
  constructor
  · rintro ⟨keys, u, leads, pressed, rfl⟩
    have home : wrapIndex s.view.stageIndex 0 g.stages.length = s.view.stageIndex :=
      wrapIndex_zero plays.inside
    have start : g.Clear s.view.stageIndex 0 := by
      intro y least most
      obtain rfl : y = 0 := by omega
      obtain ⟨stage, edited, loads, -⟩ := plays.onStage.stage
      exact ⟨stage, home.symm ▸ loads⟩
    obtain ⟨way, clear, index⟩ := plays.clear_of_pressEach short leads start home.symm pressed
    exact ⟨way, index.symm, clear⟩
  · rintro ⟨way, rfl, clear⟩
    -- A way of either sign is walked with one key.
    rcases Int.le_total 0 way with forward | back
    · have whole : (way.toNat : Int) * Int32.toInt 1 = way := by
        rw [show Int32.toInt 1 = 1 from rfl]
        omega
      have forth : wayOf (fun other => decide (other = .char 'n')) = some 1 := by decide
      obtain ⟨u, pressed, index⟩ :=
        plays.exists_presses short forth way.toNat (by rw [whole]; exact clear)
      rw [whole] at index
      exact ⟨_, u, fun key member => .inl (List.eq_of_mem_replicate member), pressed, index⟩
    · have whole : ((-way).toNat : Int) * Int32.toInt (-1) = way := by
        rw [show Int32.toInt (-1) = -1 from rfl]
        omega
      have back : wayOf (fun other => decide (other = .char 'p')) = some (-1) := by decide
      obtain ⟨u, pressed, index⟩ :=
        plays.exists_presses short back (-way).toNat (by rw [whole]; exact clear)
      rw [whole] at index
      exact ⟨_, u, fun key member => .inr (List.eq_of_mem_replicate member), pressed, index⟩

/-- Beyond a stage that does not load the keys lead backwards around the list. -/
theorem stage_beyond_broken_is_reached :
    ∃ s keys u, openAt brokenSecond 0 = .ok s ∧
      (∀ key ∈ keys, key = .char 'n' ∨ key = .char 'p') ∧
      pressEach brokenSecond keys s = .ok u ∧ u.view.stageIndex = 2 := by
  have firstAt : brokenSecond.loadsAt 0 = true := by decide +kernel
  have lastAt : brokenSecond.loadsAt 2 = true := by decide +kernel
  obtain ⟨s, opened, place⟩ := exists_openAt_of_loadsAt firstAt (by decide)
  obtain ⟨keys, u, leads, pressed, index⟩ := (reached_iff_clear (.opened opened) (by decide) 2).mpr (by
    rw [place]
    refine ⟨-1, by decide, fun y least most => ?_⟩
    obtain rfl | rfl : y = 0 ∨ y = -1 := by omega
    · exact Game.loadsAt_iff.mp firstAt
    · exact Game.loadsAt_iff.mp lastAt)
  exact ⟨s, keys, u, opened, leads, pressed, index⟩

def everyOtherBroken : Game :=
  gameOf [("a.toml", "name = \"A\"\nmap = [[2]]\n"), ("b.toml", "name = \"B\"\nmap = [[1]]\n"),
    ("c.toml", "name = \"C\"\nmap = [[2]]\n"), ("d.toml", "name = \"D\"\nmap = [[1]]\n")]

/-- The third stage loads, and no keys lead to it from the first one. -/
theorem stage_between_broken_is_not_reached :
    (∃ stage, everyOtherBroken.Loads 2 stage) ∧ ∃ s, openFirst everyOtherBroken = .ok (some s) ∧
      ∀ keys u, (∀ key ∈ keys, key = .char 'n' ∨ key = .char 'p') →
        pressEach everyOtherBroken keys s = .ok u → u.view.stageIndex ≠ 2 := by
  have firstAt : everyOtherBroken.loadsAt 0 = true := by decide +kernel
  have thirdAt : everyOtherBroken.loadsAt 2 = true := by decide +kernel
  have secondAt : everyOtherBroken.loadsAt 1 = false := by decide +kernel
  have fourthAt : everyOtherBroken.loadsAt 3 = false := by decide +kernel
  have blocked {i : Nat} (fails : everyOtherBroken.loadsAt i = false) :
      ¬ ∃ stage, everyOtherBroken.Loads i stage := fun loads => by
    cases fails.symm.trans (Game.loadsAt_iff.mpr loads)
  refine ⟨Game.loadsAt_iff.mp thirdAt, ?_⟩
  obtain ⟨s, opened, place⟩ := exists_openAt_of_loadsAt firstAt (by decide)
  have begins : openFirst everyOtherBroken = .ok (some s) := by
    change openFirstFrom everyOtherBroken 0 (_ :: _) = _
    rw [openFirstFrom, opened]
  refine ⟨s, begins, fun keys u leads pressed there => ?_⟩
  have start : everyOtherBroken.Clear 0 0 := by
    intro y least most
    obtain rfl : y = 0 := by omega
    exact Game.loadsAt_iff.mp firstAt
  obtain ⟨way, clear, index⟩ :=
    (Plays.opened opened).clear_of_pressEach (by decide) leads start place pressed
  -- One place further in either direction is broken, so the way has length zero.
  have short : way = 0 := by
    by_contra long
    have before : wrapIndex 0 (-1) everyOtherBroken.stages.length = 3 := by decide
    rcases Int.lt_or_lt_of_ne long with back | forth
    · exact blocked fourthAt (before ▸ clear (-1) (by omega) (by omega))
    · exact blocked secondAt (clear 1 (by omega) (by omega))
  rw [there, short] at index
  cases index

end Session
end Tilewalk
