import Tilewalk.Registers

/-! The two phases, authoring and simulation, and the switch between them. A change of phase resets
the registers on the way to authoring and is then told to every listener; asking for the current
phase again does nothing. -/

set_option autoImplicit false

namespace Tilewalk

inductive Phase where
  | editing
  | running
deriving DecidableEq

namespace Phase

def toggled : Phase → Phase
  | editing => running
  | running => editing

def prepare (target : Phase) (s : Registers) : Registers :=
  match target with
  | editing => s.reset
  | running => s

end Phase

class PhaseListener (α : Type) where
  onPhase : Phase → α → α

instance {α β : Type} [PhaseListener α] [PhaseListener β] : PhaseListener (α × β) where
  onPhase p l := (PhaseListener.onPhase p l.1, PhaseListener.onPhase p l.2)

instance {α : Type} [PhaseListener α] : PhaseListener (List α) where
  onPhase p l := l.map (PhaseListener.onPhase p)

/-- Switch from the current phase to the target: the registers and the listeners afterwards, or
nothing when the target is the current phase. -/
def Phase.change? {α : Type} [PhaseListener α] (current target : Phase) (s : Registers)
    (listeners : α) : Option (Registers × α) :=
  if current = target then none
  else some (target.prepare s, PhaseListener.onPhase target listeners)

end Tilewalk
