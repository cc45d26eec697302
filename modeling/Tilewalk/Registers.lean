import Tilewalk.Tile.Register
import Tilewalk.Tile.Operation

/-! The register store. Every change is queued as a notification, and draining the queue hands the
notifications over, oldest first. -/

set_option autoImplicit false

namespace Tilewalk

structure Change where
  register : Register
  value : Int32
deriving DecidableEq

structure Registers where
  ruby : Int32
  sapphire : Int32
  emerald : Int32
  pending : List Change
deriving DecidableEq

namespace Registers

def fresh : Registers := ⟨0, 0, 0, []⟩

def get (s : Registers) : Register → Int32
  | .ruby => s.ruby
  | .sapphire => s.sapphire
  | .emerald => s.emerald

def put (s : Registers) (r : Register) (v : Int32) : Registers :=
  match r with
  | .ruby => { s with ruby := v }
  | .sapphire => { s with sapphire := v }
  | .emerald => { s with emerald := v }

@[simp] theorem get_put (s : Registers) (r q : Register) (v : Int32) :
    (s.put r v).get q = if q = r then v else s.get q := by
  cases r <;> cases q <;> rfl

@[simp] theorem pending_put (s : Registers) (r : Register) (v : Int32) :
    (s.put r v).pending = s.pending := by
  cases r <;> rfl

def announce (s : Registers) (r : Register) (v : Int32) : Registers :=
  let s := s.put r v
  { s with pending := s.pending ++ [⟨r, v⟩] }

@[simp] theorem get_announce (s : Registers) (r q : Register) (v : Int32) :
    (s.announce r v).get q = if q = r then v else s.get q :=
  s.get_put r q v

@[simp] theorem pending_announce (s : Registers) (r : Register) (v : Int32) :
    (s.announce r v).pending = s.pending ++ [⟨r, v⟩] := by
  simp [announce]

/-- Run an operation on a register. A division by zero and a result equal to the stored value leave
the store as it is; any other result is stored and announced. -/
def operate (s : Registers) (r : Register) (o : Operation) (n : Int32) : Registers :=
  match o.result? (s.get r) n with
  | none => s
  | some v => if v = s.get r then s else s.announce r v

/-- Set every register to zero and announce each, also those that were zero already. -/
def reset (s : Registers) : Registers :=
  Register.all.foldl (fun s r => s.announce r 0) s

@[simp] theorem get_reset (s : Registers) (r : Register) : s.reset.get r = 0 := by
  cases r <;> rfl

def drain (s : Registers) : List Change × Registers :=
  (s.pending, { s with pending := [] })

end Registers
end Tilewalk
