import Mathlib.Data.List.Forall2
import Tilewalk.Proofs.Registers
import Tilewalk.Proofs.World.Skipping

/-! Whoever hears of the changes knows the registers. A copy that starts at zero and is overwritten with
each change that is told equals the registers after every operation; a step tells of the changes last,
in the order in which its tiles made them. -/

set_option autoImplicit false

namespace Tilewalk

namespace Event

def hear (copy : Copy) : Event → Copy
  | variableChanged r v => copy.write ⟨r, v⟩
  | _ => copy

def isChange : Event → Bool
  | variableChanged .. => true
  | _ => false

theorem foldl_hear_ofChange (copy : Copy) (changes : List Change) :
    (changes.map ofChange).foldl hear copy = copy.overwrite changes := by
  rw [List.foldl_map]
  rfl

theorem foldl_hear_of_silent {told : List Event} (silent : ∀ event ∈ told, event.isChange = false)
    (copy : Copy) : told.foldl hear copy = copy := by
  induction told with
  | nil => rfl
  | cons event rest ih =>
    have here : hear copy event = copy := by
      cases event with
      | variableChanged => cases silent _ List.mem_cons_self
      | _ => rfl
    rw [List.foldl_cons, here]
    exact ih fun other member => silent other (List.mem_cons_of_mem _ member)

theorem silent_of_isTile {event : Event} (tile : event.isTile = true) : event.isChange = false := by
  cases event with
  | variableChanged => cases tile
  | _ => rfl

theorem silent_gems (gems : List TileId) : ∀ event ∈ gems.map gemRestored, event.isChange = false := by
  intro event member
  obtain ⟨tile, -, rfl⟩ := List.mem_map.mp member
  rfl

end Event

namespace World

open Event

variable {w u : World} {past : List Event}

/-! ## What tiles queue -/

/-- When it is entered, the tile queues these changes: none or one, and only when it hides its gem. -/
structure Queues (w : World) (tile : TileId) (queued : List Change) : Prop where
  pending : (w.dispatch tile).2.registers.pending = w.registers.pending ++ queued
  atMostOne : queued.length ≤ 1
  gem : queued ≠ [] → (w.dispatch tile).1 = some (.gemHidden tile)

theorem queues_nil {tile : TileId} (same : (w.dispatch tile).2.registers = w.registers) :
    w.Queues tile [] :=
  ⟨by rw [same, List.append_nil], by simp, fun some => absurd rfl some⟩

theorem Acts.exists_queues {tile : TileId} {event : Event} (acts : Acts w tile event u) :
    ∃ queued, w.Queues tile queued := by
  have dispatched := acts.dispatch_eq
  cases acts with
  | @computes r o n =>
    obtain ⟨queued, queues, atMostOne, -⟩ := w.registers.queues_operate r o n
    exact ⟨queued, by rw [dispatched]; exact queues.pending, atMostOne, fun _ => by rw [dispatched]⟩
  | _ => exact ⟨[], queues_nil (congrArg (·.2.registers) dispatched)⟩

theorem Enters.exists_queues {tiles : List TileId} {acts : List (TileId × Event)}
    (enters : Enters w tiles acts u) : ∃ queued : List (List Change),
      u.registers.pending = w.registers.pending ++ queued.flatten ∧
      List.Forall₂ (fun d changes => d.2.Queues d.1 changes) (w.dispatches tiles) queued := by
  -- The queue grows by what each act adds, so the lists of all acts are joined.
  induction enters with
  | done => exact ⟨[], by simp, .nil⟩
  | passed refused _ ih => simpa [World.dispatches, enter, refused] using ih
  | acted admitted act _ ih =>
    obtain ⟨changes, queues⟩ := act.exists_queues
    obtain ⟨queued, pending, each⟩ := ih
    refine ⟨changes :: queued, ?_, ?_⟩
    · have first := queues.pending
      rw [act.dispatch_eq] at first
      rw [pending, first, List.flatten_cons, List.append_assoc]
    · simpa [World.dispatches, enter, admitted, act.dispatch_eq] using And.intro queues each

theorem Acts.leads {copy : Copy} (leads : w.registers.Leads copy) {tile : TileId} {event : Event}
    (acts : Acts w tile event u) : u.registers.Leads copy := by
  cases acts with
  | computes => exact leads.operate _ _ _
  | _ => exact leads

theorem Enters.leads {copy : Copy} (leads : w.registers.Leads copy) {tiles : List TileId}
    {acts : List (TileId × Event)} (enters : Enters w tiles acts u) : u.registers.Leads copy := by
  induction enters with
  | done => exact leads
  | passed _ _ ih => exact ih leads
  | acted _ act _ ih => exact ih (act.leads leads)

/-! ## What operations tell -/

theorem Moves.registers {events : List Event} (moves : Moves w events u) :
    u.registers = w.registers := by
  cases moves <;> rfl

theorem Moves.silent {events : List Event} (moves : Moves w events u) :
    ∀ event ∈ events, event.isChange = false := by
  cases moves with
  | falls => simp [isChange]
  | _ => simp

theorem silent_before_changes {moved : List Event} {acts : List (TileId × Event)}
    (first : ∀ event ∈ moved, event.isChange = false)
    (tiles : ∀ event ∈ acts.map (·.2), event.isTile = true) (gems : List TileId) :
    ∀ event ∈ moved ++ acts.map (·.2) ++ gems.map gemRestored, event.isChange = false := by
  intro event member
  rcases List.mem_append.mp member with early | late
  · rcases List.mem_append.mp early with early | acted
    · exact first event early
    · exact silent_of_isTile (tiles event acted)
  · exact silent_gems gems event late

theorem handOver_eq (w : World) : w.handOver.1 =
    (w.timers.takeDue w.time).1.map gemRestored ++ w.registers.pending.map ofChange := rfl

def Heard (told : List Event) (w : World) : Prop := told.foldl hear .blank = w.registers.get

theorem Heard.silent (heard : Heard past w) {told : List Event}
    (silent : ∀ event ∈ told, event.isChange = false) (same : u.registers = w.registers) :
    Heard (past ++ told) u := by
  rw [Heard, List.foldl_append, foldl_hear_of_silent silent, same]
  exact heard

/-- When the queue leads from the copy to the registers, telling it last brings the copy up to date. -/
theorem heard_of_leads {copy : Copy} {told : List Event} {s : Registers}
    (known : past.foldl hear .blank = copy) (silent : ∀ event ∈ told, event.isChange = false)
    (leads : s.Leads copy) :
    (past ++ (told ++ s.pending.map ofChange)).foldl hear .blank = s.get := by
  rw [List.foldl_append, List.foldl_append, known, foldl_hear_of_silent silent, foldl_hear_ofChange]
  exact leads

theorem Settled.leads (settled : w.Settled) : w.registers.Leads w.registers.get :=
  Registers.leads_of_drained settled.drained

theorem Heard.ticks (heard : Heard past w) (settled : w.Settled) {events : List Event}
    (ticks : Ticks w events u) : Heard (past ++ events) u := by
  cases ticks with
  | @mk moved mid last acts moves enters =>
    have ready : mid.integrate.arrive.registers.Leads w.registers.get := by
      have same : mid.integrate.arrive.registers = w.registers := moves.registers
      rw [same]
      exact settled.leads
    -- All that a tick tells before its changes is silent, so the copy is the one before the tick.
    have silent := silent_before_changes moves.silent enters.isTile (last.timers.takeDue last.time).1
    have after : last.handOver.2.registers.get = last.registers.get :=
      funext fun r => Registers.get_drain last.registers r
    rw [Heard, after, handOver_eq, ← List.append_assoc (moved ++ _)]
    exact heard_of_leads heard silent (enters.leads ready)

theorem Heard.restarts (heard : Heard past w) (settled : w.Settled) (target : Phase) :
    Heard (past ++ w.restartEvents target) (w.restart target) := by
  have ready : (target.prepare w.registers).Leads w.registers.get := by
    cases target with
    | editing => exact settled.leads.reset
    | running => exact settled.leads
  have silent : ∀ event ∈ .phaseChanged target :: w.timers.takeAll.1.map gemRestored,
      event.isChange = false := by
    intro event member
    rcases List.mem_cons.mp member with rfl | restored
    · rfl
    · exact silent_gems _ event restored
  have after : (w.restart target).registers.get = (target.prepare w.registers).get :=
    funext fun r => Registers.get_drain _ r
  rw [Heard, after]
  exact heard_of_leads heard silent ready

theorem Heard.performs (heard : Heard past w) (settled : w.Settled) {c : Command}
    {events : List Event} (performs : Performs w c events u) : Heard (past ++ events) u := by
  cases performs with
  | ticks _ ticks => exact heard.ticks settled ticks
  | restarts => exact heard.restarts settled _
  | edits => exact heard.silent (by simp [isChange]) rfl
  | idles => exact heard.silent (by simp) rfl
  | stays => exact heard.silent (by simp) rfl
  | refuses => exact heard.silent (by simp) rfl
  | changesSpeed => exact heard.silent (by simp) rfl
  | setsSpeed => exact heard.silent (by simp) rfl

theorem heard_of_play {board : Board} {spawn : Pose} {config : SimConfig} {words : WordSource}
    {commands : List Command} {told : List (List Event)}
    (played : play board spawn config words commands = .ok (told, w)) : Heard told.flatten w := by
  refine play_preserves Heard ?_ ?_ played
  · intro start made
    obtain ⟨p, -, rfl⟩ := opened_eq_ok made
    funext r
    cases r <;> rfl
  · intro past v x c events settled heard performs
    exact heard.performs settled performs

/-- A step tells of the changes last, each tile of its own, in the order in which the tiles act. -/
theorem Settled.changes_of_step (settled : w.Settled) (running : w.phase = .running)
    {events : List Event} (stepped : w.step = .ok (events, u)) :
    ∃ moved v others queued, w.tickClock.resolveMovement = .ok (moved, v) ∧
      events = others ++ (List.flatten queued).map ofChange ∧
      (∀ event ∈ others, event.isChange = false) ∧
      List.Forall₂ (fun d changes => d.2.Queues d.1 changes)
        (v.integrate.arrive.dispatches v.integrate.entered) queued ∧
      (others.filter isTile).map some = (v.integrate.arrive.dispatches v.integrate.entered).map
        fun d => (d.2.dispatch d.1).1 := by
  obtain ⟨moved, v, acts, last, movement, moves, enters, rfl, -⟩ :=
    step_eq_ok running settled.rests stepped
  obtain ⟨queued, pending, each⟩ := enters.exists_queues
  have drained : v.integrate.arrive.registers.pending = [] := by
    have same : v.integrate.arrive.registers = w.registers := moves.registers
    rw [same]
    exact settled.drained
  rw [drained, List.nil_append] at pending
  refine ⟨moved, v, moved ++ acts.map (·.2) ++ (last.timers.takeDue last.time).1.map gemRestored,
    queued, movement, ?_, ?_, each, ?_⟩
  · rw [handOver_eq, pending, List.append_assoc (moved ++ _)]
  · exact silent_before_changes moves.silent enters.isTile _
  · have aside : ∀ event ∈ (last.timers.takeDue last.time).1.map gemRestored, event.Aside := by
      intro event member
      obtain ⟨tile, -, rfl⟩ := List.mem_map.mp member
      exact aside_of_routine rfl
    rw [filter_isTile_between moves.aside enters.isTile aside, List.map_map]
    have each := congrArg (List.map Prod.snd) enters.dispatches
    simpa [Function.comp_def] using each.symm

/-- The changes in full. Of a store, the drained ones lead from a copy made at the last drain to the
registers, and each change of a value is queued once. Of any run, what is told leads from zero to the
registers of the world, and each step tells of its changes last. -/
theorem changes_mirror_registers {board : Board} {spawn : Pose} {config : SimConfig}
    {words : WordSource} {commands : List Command} {told : List (List Event)}
    (played : play board spawn config words commands = .ok (told, w)) :
    (∀ before after : List Registers.Request,
      (before = [] ∨ before.getLast? = some .drain) → .drain ∉ after →
      Copy.overwrite (Registers.fresh.serveAll before).get
          (Registers.fresh.serveAll (before ++ after)).drain.1
        = (Registers.fresh.serveAll (before ++ after)).get) ∧
    (∀ (s : Registers) (request : Registers.Request), request ≠ .drain →
      ∃ queued, s.Queues (s.serve request) queued ∧ (request ≠ .reset →
        queued.length ≤ 1 ∧ ∀ c ∈ queued, c.value ≠ s.get c.register)) ∧
    told.flatten.foldl hear .blank = w.registers.get ∧
    ∀ events u, w.phase = .running → w.step = .ok (events, u) →
      ∃ moved v others queued, w.tickClock.resolveMovement = .ok (moved, v) ∧
        events = others ++ (List.flatten queued).map ofChange ∧
        (∀ event ∈ others, event.isChange = false) ∧
        List.Forall₂ (fun d changes => d.2.Queues d.1 changes)
          (v.integrate.arrive.dispatches v.integrate.entered) queued ∧
        (others.filter isTile).map some = (v.integrate.arrive.dispatches v.integrate.entered).map
          fun d => (d.2.dispatch d.1).1 := by
  refine ⟨?_, ?_, heard_of_play played, ?_⟩
  · intro before after drained kept
    exact Registers.overwrite_drain drained kept
  · intro s request kept
    exact s.queues_serve kept
  · intro events u running stepped
    exact (reachable_of_play played).settled.changes_of_step running stepped

theorem gem_heard_by_observer :
    ∃ told w, onRow 2 [.step] = .ok (told, w) ∧ told.flatten.foldl hear .blank .ruby = 1 := by
  have adds : (onRow 2 [.step]).toOption.any
      (fun played => decide (played.2.registers.get .ruby = 1)) = true := by
    decide +kernel
  obtain ⟨⟨told, w⟩, played, one⟩ := exists_of_any adds
  have known := (changes_mirror_registers played).2.2.1
  exact ⟨told, w, played, (congrFun known .ruby).trans (of_decide_eq_true one)⟩

end World
end Tilewalk
