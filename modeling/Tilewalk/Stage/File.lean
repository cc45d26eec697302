import Tilewalk.Toml.Decode
import Tilewalk.Toml.Parser
import Tilewalk.Tile.Kind

/-! Stage files: a map of codes, an optional map of edit codes of the same shape, and the
configuration of the gem and gate codes. -/

set_option autoImplicit false

namespace Tilewalk

structure GemEntry where
  code : Int32
  register : Register
  operation : Operation
  value : Int32
deriving DecidableEq

structure GateEntry where
  code : Int32
  register : Register
  comparator : Comparator
  value : Int32
deriving DecidableEq

structure StageFile where
  name : String
  description : String
  /-- The rows of the map, the far edge of the board first. -/
  map : List (List Int32)
  editable : List (List Int32)
  gems : List GemEntry
  gates : List GateEntry
deriving DecidableEq

namespace StageFile

def registers : List (String × Register) :=
  [("ruby", .ruby), ("sapphire", .sapphire), ("emerald", .emerald)]

def operations : List (String × Operation) :=
  [("add", .add), ("subtract", .subtract), ("multiply", .multiply), ("divide", .divide),
    ("assign", .assign)]

def comparators : List (String × Comparator) :=
  Comparator.all.map fun c => (c.symbol, c)

def gemOfToml (v : Toml.Value) : Except Toml.Error GemEntry := do
  let fields ← v.toRecord ["code", "register", "operation", "value"]
  return {
    code := ← fields.required "code" (·.toInt32)
    register := ← fields.optional "register" .ruby (·.toChoice registers)
    operation := ← fields.optional "operation" .add (·.toChoice operations)
    value := ← fields.optional "value" 0 (·.toInt32) }

def gateOfToml (v : Toml.Value) : Except Toml.Error GateEntry := do
  let fields ← v.toRecord ["code", "register", "comparator", "value"]
  return {
    code := ← fields.required "code" (·.toInt32)
    register := ← fields.optional "register" .ruby (·.toChoice registers)
    comparator := ← fields.optional "comparator" .less (·.toChoice comparators)
    value := ← fields.optional "value" 0 (·.toInt32) }

def codesOfToml (v : Toml.Value) : Except Toml.Error (List (List Int32)) :=
  v.toListOf (·.toListOf (·.toInt32))

def ofToml (v : Toml.Value) : Except Toml.Error StageFile := do
  let fields ← v.toRecord ["name", "description", "map", "editable", "variable", "conditional"]
  return {
    name := ← fields.required "name" (·.toText)
    description := ← fields.optional "description" "" (·.toText)
    map := ← fields.required "map" codesOfToml
    editable := ← fields.optional "editable" [] codesOfToml
    gems := ← fields.optional "variable" [] (·.toListOf gemOfToml)
    gates := ← fields.optional "conditional" [] (·.toListOf gateOfToml) }

def parse (text : String) : Except Toml.Error StageFile :=
  Toml.parse text >>= ofToml

end StageFile
end Tilewalk
