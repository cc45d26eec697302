import Tilewalk.Toml.Error

/-! The values of a document. A table remembers how it came about, because that decides who may add to
it. -/

set_option autoImplicit false

namespace Tilewalk.Toml

inductive TableForm where
  /-- The document itself, or a table opened by a header of its own. -/
  | header
  /-- A table that only stands on the way to the table of a header. -/
  | implied
  /-- A table that only stands on the way to a dotted key. -/
  | dotted
  | inline
deriving DecidableEq

inductive Value where
  | string (text : String)
  | integer (n : Int)
  | float (x : Float)
  | boolean (b : Bool)
  | datetime (text : String)
  | array (items : List Value)
  /-- The tables collected under one double-bracketed header. -/
  | tables (items : List Value)
  | table (form : TableForm) (entries : List (String × Value))

/-- The keys of a table with their values, in the order of their definition. -/
abbrev Entries := List (String × Value)

namespace Entries

def put (key : String) (value : Value) : Entries → Entries
  | [] => [(key, value)]
  | (k, v) :: rest => if k = key then (key, value) :: rest else (k, v) :: put key value rest

end Entries

abbrev TableEdit := TableForm → Entries → Except Error (TableForm × Entries)

/-- Follow a path down from a table and change the table at its end. Missing tables are made on the
way, and the last one of collected tables stands for them all. A braced table is closed, and a dotted
path does not enter a table that has a header. -/
def descend (dotted : Bool) (change : TableEdit) : List String → TableEdit
  | [] => change
  | key :: path => fun form entries => do
    let enter (form' : TableForm) (entries' : Entries) : Except Error Value := do
      let (form', entries') ← descend dotted change path form' entries'
      return .table form' entries'
    match entries.lookup key with
    | none =>
      let child ← enter (if dotted then .dotted else .implied) []
      return (form, entries.put key child)
    | some (.table form' entries') =>
      if form' = .inline ∨ (dotted ∧ form' = .header) then .error (.redefined key)
      else do
        let child ← enter form' entries'
        return (form, entries.put key child)
    | some (.tables items) =>
      match items.getLast? with
      | some (.table form' entries') =>
        let child ← enter form' entries'
        return (form, entries.put key (.tables (items.dropLast ++ [child])))
      | _ => .error (.redefined key)
    | some _ => .error (.redefined key)

/-- Define a key of the table that a dotted path leads to. Only a table made by dotted keys can be
reached by one. -/
def assign (path : List String) (key : String) (value : Value) : TableEdit :=
  descend true (fun form entries =>
    if (form = .dotted) = path.isEmpty ∨ (entries.lookup key).isSome then .error (.redefined key)
    else .ok (form, entries.put key value)) path

/-- Open the table of a header: a new one, or one that so far only stood on the way to others. -/
def openTable (path : List String) (key : String) : TableEdit :=
  descend false (fun form entries =>
    match entries.lookup key with
    | none => .ok (form, entries.put key (.table .header []))
    | some (.table .implied entries') => .ok (form, entries.put key (.table .header entries'))
    | some _ => .error (.redefined key)) path

def openElement (path : List String) (key : String) : TableEdit :=
  descend false (fun form entries =>
    match entries.lookup key with
    | none => .ok (form, entries.put key (.tables [.table .header []]))
    | some (.tables items) =>
      .ok (form, entries.put key (.tables (items ++ [.table .header []])))
    | some _ => .error (.redefined key)) path

end Tilewalk.Toml
