import Tilewalk.Number.Binary32
import Tilewalk.Number.Binary64
import Tilewalk.Toml.Value

/-! Typed reading of values. A number field takes whole numbers, and a real field takes both kinds; a
list takes an array or collected tables; a word takes one of a fixed choice; and a record takes a
table, of which unknown keys are passed over, or an array of its fields in order. -/

set_option autoImplicit false

namespace Tilewalk.Toml

namespace Value

def toText : Value → Except Error String
  | .string s => .ok s
  | _ => .error (.wrongType "a string")

def toBoolean : Value → Except Error Bool
  | .boolean b => .ok b
  | _ => .error (.wrongType "a boolean")

def toIntWithin (lo hi : Int) : Value → Except Error Int
  | .integer n => if lo ≤ n ∧ n ≤ hi then .ok n else .error (.outOfRange (toString n))
  | _ => .error (.wrongType "a whole number")

def toInt32 (v : Value) : Except Error Int32 := do
  let n ← v.toIntWithin Int32.minValue.toInt Int32.maxValue.toInt
  return Int32.ofInt n

def toUInt64 (v : Value) : Except Error UInt64 := do
  let n ← v.toIntWithin 0 0xffffffffffffffff
  return UInt64.ofNat n.toNat

def toFloat32 : Value → Except Error Float32
  | .float x => .ok (Binary64.narrow x)
  | .integer n => .ok (Binary32.ofInt n)
  | _ => .error (.wrongType "a number")

def toItems : Value → Except Error (List Value)
  | .array vs | .tables vs => .ok vs
  | _ => .error (.wrongType "a list")

def toListOf {α : Type} (item : Value → Except Error α) (v : Value) : Except Error (List α) := do
  let vs ← v.toItems
  vs.mapM item

def isEmptyContainer : Value → Bool
  | .table _ [] | .array [] | .tables [] => true
  | _ => false

/-- A word, also when it is the only key of a table and holds nothing. -/
def toWord : Value → Except Error String
  | .string s => .ok s
  | .table _ [(key, v)] =>
    if v.isEmptyContainer then .ok key else .error (.wrongType "an empty table")
  | _ => .error (.wrongType "a word")

def toChoice {α : Type} (choice : List (String × α)) (v : Value) : Except Error α := do
  let word ← v.toWord
  match choice.lookup word with
  | some a => return a
  | none => .error (.unknownWord word)

/-- The fields of a record whose keys have a fixed order. A date or time is a record that has none of
them. -/
def toRecord (keys : List String) : Value → Except Error Entries
  | .table _ entries => .ok entries
  | .array vs | .tables vs => .ok (keys.zip vs)
  | .datetime _ => .ok []
  | _ => .error (.wrongType "a table")

end Value

namespace Entries

def required {α : Type} (entries : Entries) (key : String) (read : Value → Except Error α) :
    Except Error α :=
  match entries.lookup key with
  | some v => read v
  | none => .error (.missing key)

def optional {α : Type} (entries : Entries) (key : String) (default : α)
    (read : Value → Except Error α) : Except Error α :=
  match entries.lookup key with
  | some v => read v
  | none => .ok default

end Entries
end Tilewalk.Toml
