import Tilewalk.Tile.Cycle

/-! The three named integer registers. -/

set_option autoImplicit false

namespace Tilewalk

inductive Register where
  | ruby
  | sapphire
  | emerald
deriving DecidableEq

namespace Register

def all : List Register := [ruby, sapphire, emerald]

def index : Register → Nat
  | ruby => 0
  | sapphire => 1
  | emerald => 2

def ofIndex : Nat → Register
  | 0 => ruby
  | 1 => sapphire
  | _ => emerald

@[simp] theorem ofIndex_index (r : Register) : ofIndex r.index = r := by
  cases r <;> rfl

def cycled (r : Register) (step : Int) : Register :=
  ofIndex (wrapIndex r.index step 3)

def initial : Register → Char
  | ruby => 'R'
  | sapphire => 'S'
  | emerald => 'E'

def name : Register → String
  | ruby => "Ruby"
  | sapphire => "Sapphire"
  | emerald => "Emerald"

end Register
end Tilewalk
