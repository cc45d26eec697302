import Tilewalk.Tile.Cycle

/-! The arithmetic that a gem tile does on its register: 32-bit words that wrap around. -/

set_option autoImplicit false

namespace Tilewalk

inductive Operation where
  | add
  | subtract
  | multiply
  | divide
  | assign
deriving DecidableEq

namespace Operation

def index : Operation → Nat
  | add => 0
  | subtract => 1
  | multiply => 2
  | divide => 3
  | assign => 4

def ofIndex : Nat → Operation
  | 0 => add
  | 1 => subtract
  | 2 => multiply
  | 3 => divide
  | _ => assign

@[simp] theorem ofIndex_index (o : Operation) : ofIndex o.index = o := by
  cases o <;> rfl

def cycled (o : Operation) (step : Int) : Operation :=
  ofIndex (wrapIndex o.index step 5)

def symbol : Operation → Char
  | add => '+'
  | subtract => '-'
  | multiply => '*'
  | divide => '/'
  | assign => '='

/-- The result on a stored value. A quotient is cut toward zero, and there is none by zero. -/
def result? : Operation → Int32 → Int32 → Option Int32
  | add, v, n => some (v + n)
  | subtract, v, n => some (v - n)
  | multiply, v, n => some (v * n)
  | divide, v, n => if n = 0 then none else some (v / n)
  | assign, _, n => some n

@[simp] theorem result?_eq_none_iff {o : Operation} {v n : Int32} :
    o.result? v n = none ↔ o = divide ∧ n = 0 := by
  cases o <;> simp [result?]

end Operation
end Tilewalk
