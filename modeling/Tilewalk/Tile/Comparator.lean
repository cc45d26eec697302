import Tilewalk.Tile.Cycle

/-! The comparisons that a gate tile makes between its register and its threshold. -/

set_option autoImplicit false

namespace Tilewalk

inductive Comparator where
  | less
  | greater
  | equal
  | notEqual
  | lessOrEqual
  | greaterOrEqual
deriving DecidableEq

namespace Comparator

def all : List Comparator :=
  [less, greater, equal, notEqual, lessOrEqual, greaterOrEqual]

def index : Comparator → Nat
  | less => 0
  | greater => 1
  | equal => 2
  | notEqual => 3
  | lessOrEqual => 4
  | greaterOrEqual => 5

def ofIndex : Nat → Comparator
  | 0 => less
  | 1 => greater
  | 2 => equal
  | 3 => notEqual
  | 4 => lessOrEqual
  | _ => greaterOrEqual

@[simp] theorem ofIndex_index (c : Comparator) : ofIndex c.index = c := by
  cases c <;> rfl

def cycled (c : Comparator) (step : Int) : Comparator :=
  ofIndex (wrapIndex c.index step 6)

def symbol : Comparator → String
  | less => "<"
  | greater => ">"
  | equal => "=="
  | notEqual => "!="
  | lessOrEqual => "<="
  | greaterOrEqual => ">="

def glyph : Comparator → Char
  | less => '<'
  | greater => '>'
  | equal => '='
  | notEqual => '!'
  | lessOrEqual => '{'
  | greaterOrEqual => '}'

def holds : Comparator → Int32 → Int32 → Bool
  | less, a, b => decide (a < b)
  | greater, a, b => decide (b < a)
  | equal, a, b => decide (a = b)
  | notEqual, a, b => decide (a ≠ b)
  | lessOrEqual, a, b => decide (a ≤ b)
  | greaterOrEqual, a, b => decide (b ≤ a)

end Comparator
end Tilewalk
