import Mathlib.Logic.Function.Basic
import Tilewalk.Registers

/-! An observer's copy of the registers. What the store has queued leads from the copy that was made when
the queue was last empty to the registers, so the drained changes bring such a copy up to date. -/

set_option autoImplicit false

namespace Tilewalk

abbrev Copy := Register → Int32

namespace Copy

def blank : Copy := fun _ => 0

def write (copy : Copy) (c : Change) : Copy := Function.update copy c.register c.value

def overwrite (copy : Copy) (changes : List Change) : Copy := changes.foldl write copy

end Copy

namespace Registers

inductive Request where
  | operate (register : Register) (operation : Operation) (operand : Int32)
  | reset
  | drain
deriving DecidableEq

def serve (s : Registers) : Request → Registers
  | .operate r o n => s.operate r o n
  | .reset => s.reset
  | .drain => s.drain.2

def serveAll (s : Registers) (requests : List Request) : Registers := requests.foldl serve s

theorem announce_get (s : Registers) (r : Register) (v : Int32) :
    (s.announce r v).get = Function.update s.get r v := by
  funext q
  simp [Function.update_apply]

theorem reset_eq_announce (s : Registers) :
    s.reset = ((s.announce .ruby 0).announce .sapphire 0).announce .emerald 0 := rfl

theorem operate_cases (s : Registers) (r : Register) (o : Operation) (n : Int32) :
    s.operate r o n = s ∨ ∃ v, v ≠ s.get r ∧ s.operate r o n = s.announce r v := by
  unfold operate
  split
  · exact .inl rfl
  · next v _ =>
    by_cases same : v = s.get r
    · exact .inl (if_pos same)
    · exact .inr ⟨v, same, if_neg same⟩

/-- Nothing differs but one register, of which at most one change is queued. -/
structure OnlyOn (r : Register) (s u : Registers) : Prop where
  others : ∀ q, q ≠ r → u.get q = s.get q
  queue : u.pending = s.pending ∨ u.pending = s.pending ++ [⟨r, u.get r⟩]

theorem onlyOn_operate (s : Registers) (r : Register) (o : Operation) (n : Int32) :
    OnlyOn r s (s.operate r o n) := by
  rcases s.operate_cases r o n with same | ⟨v, -, announced⟩
  · rw [same]
    exact ⟨fun _ _ => rfl, .inl rfl⟩
  · rw [announced]
    exact ⟨fun q other => by simp [other], .inr (by simp)⟩

theorem operate_divide_zero (s : Registers) (r : Register) : s.operate r .divide 0 = s := by
  have none := (Operation.result?_eq_none_iff (v := s.get r)).mpr ⟨rfl, rfl⟩
  rw [operate, none]

/-! ## The queue leads to the registers -/

/-- Overwritten with the queued changes, the copy equals the registers. -/
def Leads (s : Registers) (copy : Copy) : Prop := copy.overwrite s.pending = s.get

theorem leads_of_drained {s : Registers} (none : s.pending = []) : s.Leads s.get := by
  rw [Leads, none]
  rfl

variable {s : Registers} {copy : Copy}

theorem Leads.announce (leads : s.Leads copy) (r : Register) (v : Int32) :
    (s.announce r v).Leads copy := by
  have before : s.pending.foldl Copy.write copy = s.get := leads
  rw [Leads, pending_announce, announce_get, Copy.overwrite, List.foldl_append, before]
  rfl

theorem Leads.operate (leads : s.Leads copy) (r : Register) (o : Operation) (n : Int32) :
    (s.operate r o n).Leads copy := by
  rcases s.operate_cases r o n with same | ⟨v, -, announced⟩
  · rwa [same]
  · rw [announced]
    exact leads.announce r v

theorem Leads.reset (leads : s.Leads copy) : s.reset.Leads copy := by
  rw [reset_eq_announce]
  exact ((leads.announce .ruby 0).announce .sapphire 0).announce .emerald 0

theorem Leads.serve (leads : s.Leads copy) {request : Request} (kept : request ≠ .drain) :
    (s.serve request).Leads copy := by
  cases request with
  | operate r o n => exact leads.operate r o n
  | reset => exact leads.reset
  | drain => exact absurd rfl kept

theorem Leads.serveAll (leads : s.Leads copy) {requests : List Request}
    (kept : .drain ∉ requests) : (s.serveAll requests).Leads copy := by
  induction requests generalizing s with
  | nil => exact leads
  | cons request rest ih =>
    obtain ⟨here, later⟩ := not_or.mp (fun among => kept (List.mem_cons.mpr among))
    exact ih (leads.serve (Ne.symm here)) later

theorem pending_serveAll {requests : List Request}
    (drained : requests = [] ∨ requests.getLast? = some .drain) :
    (fresh.serveAll requests).pending = [] := by
  rcases drained with rfl | last
  · rfl
  · obtain ⟨before, rfl⟩ := List.getLast?_eq_some_iff.mp last
    rw [serveAll, List.foldl_append]
    rfl

theorem overwrite_drain {before after : List Request}
    (drained : before = [] ∨ before.getLast? = some .drain) (kept : .drain ∉ after) :
    Copy.overwrite (fresh.serveAll before).get (fresh.serveAll (before ++ after)).drain.1
      = (fresh.serveAll (before ++ after)).get := by
  have start := leads_of_drained (pending_serveAll drained)
  have whole : fresh.serveAll (before ++ after) = (fresh.serveAll before).serveAll after :=
    List.foldl_append
  rw [whole]
  exact start.serveAll kept

/-! ## What is queued -/

/-- The request queues these changes: each register whose value it changes is among them once, with its
new value. -/
structure Queues (s u : Registers) (queued : List Change) : Prop where
  pending : u.pending = s.pending ++ queued
  once : ∀ r, u.get r ≠ s.get r → queued.filter (·.register = r) = [⟨r, u.get r⟩]

theorem queues_nil (s : Registers) : s.Queues s [] :=
  ⟨(List.append_nil _).symm, fun _ changed => absurd rfl changed⟩

theorem queues_announce (s : Registers) (r : Register) (v : Int32) :
    s.Queues (s.announce r v) [⟨r, v⟩] where
  pending := pending_announce s r v
  once := by
    intro q changed
    by_cases same : q = r
    · subst same
      simp
    · exact absurd (by simp [same]) changed

theorem queues_reset (s : Registers) :
    s.Queues s.reset [⟨.ruby, 0⟩, ⟨.sapphire, 0⟩, ⟨.emerald, 0⟩] where
  pending := by simp [reset_eq_announce]
  once := by
    intro r _
    rw [get_reset]
    cases r <;> rfl

theorem queues_operate (s : Registers) (r : Register) (o : Operation) (n : Int32) :
    ∃ queued, s.Queues (s.operate r o n) queued ∧ queued.length ≤ 1 ∧
      ∀ c ∈ queued, c.value ≠ s.get c.register := by
  rcases s.operate_cases r o n with same | ⟨v, other, announced⟩
  · rw [same]
    exact ⟨[], s.queues_nil, by simp, by simp⟩
  · rw [announced]
    exact ⟨_, s.queues_announce r v, by simp, by simpa using other⟩

theorem queues_serve (s : Registers) {request : Request} (kept : request ≠ .drain) :
    ∃ queued, s.Queues (s.serve request) queued ∧ (request ≠ .reset →
      queued.length ≤ 1 ∧ ∀ c ∈ queued, c.value ≠ s.get c.register) := by
  cases request with
  | operate r o n =>
    obtain ⟨queued, queues, atMostOne, differ⟩ := s.queues_operate r o n
    exact ⟨queued, queues, fun _ => ⟨atMostOne, differ⟩⟩
  | reset => exact ⟨_, s.queues_reset, fun other => absurd rfl other⟩
  | drain => exact absurd rfl kept

end Registers
end Tilewalk
