import Tilewalk.Event

/-! Traces: the tile events among what is told, since the last change of phase. -/

set_option autoImplicit false

namespace Tilewalk

namespace Event

/-- The event tells of the one effect that a tile had, or failed to have. -/
def isTile : Event → Bool
  | directionChanged .. | gemHidden _ | conditionEvaluated .. | effectSkipped _ => true
  | teleported .. | teleportFailed .. | levelComplete => true
  | phaseChanged _ | variableChanged .. | fallStarted | gemRestored _ | tileEdited _ => false

/-- The trace goes on with a tile event, and starts anew with a change of phase. -/
def extend (trace : List Event) : Event → List Event
  | phaseChanged _ => []
  | event => if event.isTile then trace ++ [event] else trace

def trace (told : List Event) : List Event := told.foldl extend []

def Restarts (event : Event) : Prop := ∃ phase, event = phaseChanged phase

def proceed (past : List Event) : Event → List Event
  | phaseChanged _ => []
  | event => past ++ [event]

/-- What is told since the last change of phase. -/
def sinceRestart (told : List Event) : List Event := told.foldl proceed []

theorem foldl_proceed {told : List Event} (stays : ∀ event ∈ told, ¬ event.Restarts)
    (past : List Event) : told.foldl proceed past = past ++ told := by
  induction told generalizing past with
  | nil => simp
  | cons event rest ih =>
    have here : proceed past event = past ++ [event] := by
      cases event with
      | phaseChanged phase => exact absurd ⟨phase, rfl⟩ (stays _ List.mem_cons_self)
      | _ => rfl
    have later := ih (fun other member => stays other (List.mem_cons_of_mem _ member))
    rw [List.foldl_cons, here, later, List.append_assoc]
    rfl

theorem sinceRestart_append {past told : List Event} (stays : ∀ event ∈ told, ¬ event.Restarts) :
    sinceRestart (past ++ told) = sinceRestart past ++ told := by
  rw [sinceRestart, List.foldl_append]
  exact foldl_proceed stays _

theorem sinceRestart_append_restart {past told : List Event} {phase : Phase}
    (stays : ∀ event ∈ told, ¬ event.Restarts) :
    sinceRestart (past ++ phaseChanged phase :: told) = told := by
  rw [sinceRestart, List.foldl_append, List.foldl_cons]
  exact foldl_proceed stays []

theorem trace_eq_filter (told : List Event) : trace told = (sinceRestart told).filter isTile := by
  have here (past : List Event) (event : Event) :
      extend (past.filter isTile) event = (proceed past event).filter isTile := by
    cases event <;> simp [extend, proceed, List.filter, isTile]
  have whole : told.foldl extend ([].filter isTile) = (told.foldl proceed []).filter isTile :=
    List.foldl_hom _ here
  exact whole

theorem trace_append {past told : List Event} (stays : ∀ event ∈ told, ¬ event.Restarts) :
    trace (past ++ told) = trace past ++ told.filter isTile := by
  rw [trace_eq_filter, trace_eq_filter, sinceRestart_append stays, List.filter_append]

theorem trace_append_restart {past told : List Event} {phase : Phase}
    (stays : ∀ event ∈ told, ¬ event.Restarts) :
    trace (past ++ phaseChanged phase :: told) = told.filter isTile := by
  rw [trace_eq_filter, sinceRestart_append_restart stays]

def Aside (event : Event) : Prop := event.isTile = false ∧ ¬ event.Restarts

/-- Told when the timers and the registers are handed over. -/
def isRoutine : Event → Bool
  | gemRestored _ | variableChanged .. => true
  | _ => false

theorem routine_of_handed {gems : List TileId} {changes : List Change} :
    ∀ event ∈ gems.map gemRestored ++ changes.map ofChange, event.isRoutine = true := by
  intro event member
  rcases List.mem_append.mp member with restored | changed
  · obtain ⟨tile, -, rfl⟩ := List.mem_map.mp restored
    rfl
  · obtain ⟨change, -, rfl⟩ := List.mem_map.mp changed
    rfl

theorem aside_of_routine {event : Event} (routine : event.isRoutine = true) : event.Aside := by
  cases event with
  | gemRestored => exact ⟨rfl, by simp [Restarts]⟩
  | variableChanged => exact ⟨rfl, by simp [Restarts]⟩
  | _ => cases routine

theorem not_restarts_of_isTile {event : Event} (tile : event.isTile = true) : ¬ event.Restarts := by
  rintro ⟨phase, rfl⟩
  cases tile

theorem filter_isTile_of_aside {told : List Event} (aside : ∀ event ∈ told, event.Aside) :
    told.filter isTile = [] := by
  rw [List.filter_eq_nil_iff]
  intro event member
  simp [(aside event member).1]

section
variable {before during after : List Event}

theorem filter_isTile_between (first : ∀ event ∈ before, event.Aside)
    (tiles : ∀ event ∈ during, event.isTile = true) (last : ∀ event ∈ after, event.Aside) :
    (before ++ during ++ after).filter isTile = during := by
  rw [List.filter_append, List.filter_append, filter_isTile_of_aside first,
    filter_isTile_of_aside last, List.filter_eq_self.mpr tiles, List.nil_append, List.append_nil]

theorem trace_append_between (first : ∀ event ∈ before, event.Aside)
    (tiles : ∀ event ∈ during, event.isTile = true) (last : ∀ event ∈ after, event.Aside)
    (past : List Event) : trace (past ++ (before ++ during ++ after)) = trace past ++ during := by
  rw [trace_append, filter_isTile_between first tiles last]
  intro event member
  rcases List.mem_append.mp member with early | late
  · rcases List.mem_append.mp early with early | here
    · exact (first event early).2
    · exact not_restarts_of_isTile (tiles event here)
  · exact (last event late).2

theorem trace_append_aside (first : ∀ event ∈ before, event.Aside) (past : List Event) :
    trace (past ++ before) = trace past := by
  rw [trace_append fun event member => (first event member).2, filter_isTile_of_aside first,
    List.append_nil]

end

end Event
end Tilewalk
