import Tilewalk.Toml.Datetime
import Tilewalk.Toml.Number
import Tilewalk.Toml.Quoted

/-! The reader of documents. A text is read into statements, one per line of substance, and the
statements are then carried out one after another on an empty document. Every reader gives back the
rest of the text. -/

set_option autoImplicit false

namespace Tilewalk.Toml

/-- The greatest number of arrays and braced tables around a value, and of parts of a key. -/
def maxDepth : Nat := 79

def isBareKeyChar (c : Char) : Bool := c.isAlphanum || c = '_' || c = '-'

def keyPart (cs : List Char) : Except Error (String × List Char) :=
  match cs with
  | [] => .error .unexpectedEnd
  | c :: rest =>
    if c = '"' ∨ c = '\'' then Quoted.line c rest
    else
      match cs.span isBareKeyChar with
      | ([], _) => .error (.unexpected c)
      | (part, rest) => .ok (String.ofList part, rest)

def keyParts : Nat → List Char → Except Error (List String × List Char)
  | 0, _ => .error .tooDeep
  | fuel + 1, cs => do
    let (part, cs) ← keyPart (skipBlanks cs)
    match skipBlanks cs with
    | '.' :: cs =>
      let (parts, cs) ← keyParts fuel cs
      return (part :: parts, cs)
    | cs => return ([part], cs)

def key (cs : List Char) : Except Error (List String × String × List Char) := do
  let (parts, cs) ← keyParts maxDepth cs
  match parts.getLast? with
  | some last => return (parts.dropLast, last, cs)
  | none => .error .unexpectedEnd

def isLiteralChar (c : Char) : Bool :=
  c.isAlphanum || c = '_' || c = '-' || c = '+' || c = '.' || c = ':'

/-- The literal at the start of a text and what follows it. A date may be followed by a blank and a
time. -/
def cutLiteral (cs : List Char) : List Char × List Char :=
  let (word, rest) := cs.span isLiteralChar
  match rest with
  | ' ' :: c :: more =>
    if c.isDigit ∧ Datetime.date? word = some [] then
      let (time, rest) := (c :: more).span isLiteralChar
      (word ++ ' ' :: time, rest)
    else (word, rest)
  | _ => (word, rest)

def literal (cs : List Char) : Except Error (Value × List Char) := do
  match cutLiteral cs with
  | ([], []) => .error .unexpectedEnd
  | ([], c :: _) => .error (.unexpected c)
  | (word, rest) =>
    if word = ['t', 'r', 'u', 'e'] then return (.boolean true, rest)
    else if word = ['f', 'a', 'l', 's', 'e'] then return (.boolean false, rest)
    else if Datetime.looksLike word then return (← Datetime.parse word, rest)
    else return (← Number.parse word, rest)

def items (item : List Char → Except Error (Value × List Char)) :
    Nat → List Char → Except Error (List Value × List Char)
  | 0, _ => .error .unexpectedEnd
  | fuel + 1, cs => do
    match ← skipTrivia false cs with
    | ']' :: cs => return ([], cs)
    | cs =>
      let (v, cs) ← item cs
      match ← skipTrivia false cs with
      | ',' :: cs =>
        let (vs, cs) ← items item fuel cs
        return (v :: vs, cs)
      | ']' :: cs => return ([v], cs)
      | c :: _ => .error (.unexpected c)
      | [] => .error .unexpectedEnd

/-- Read the pairs of a braced table, which all stand on one line without a comma at the end. The fuel
bounds their number. -/
def pairs (item : List Char → Except Error (Value × List Char)) :
    Nat → Entries → List Char → Except Error (Entries × List Char)
  | 0, _, _ => .error .unexpectedEnd
  | fuel + 1, entries, cs => do
    let (path, last, cs) ← key cs
    match cs with
    | '=' :: cs =>
      let (v, cs) ← item (skipBlanks cs)
      let (_, entries) ← assign path last v .inline entries
      match skipBlanks cs with
      | ',' :: cs => pairs item fuel entries cs
      | '}' :: cs => return (entries, cs)
      | c :: _ => .error (.unexpected c)
      | [] => .error .unexpectedEnd
    | c :: _ => .error (.unexpected c)
    | [] => .error .unexpectedEnd

def braced (item : List Char → Except Error (Value × List Char)) (cs : List Char) :
    Except Error (Value × List Char) := do
  match skipBlanks cs with
  | '}' :: cs => return (.table .inline [], cs)
  | cs =>
    let (entries, cs) ← pairs item cs.length [] cs
    return (.table .inline entries, cs)

def value : Nat → List Char → Except Error (Value × List Char)
  | depth, cs =>
    match cs with
    | '"' :: '"' :: '"' :: cs => do
      let (s, cs) ← Quoted.block '"' cs
      return (.string s, cs)
    | '\'' :: '\'' :: '\'' :: cs => do
      let (s, cs) ← Quoted.block '\'' cs
      return (.string s, cs)
    | '"' :: cs => do
      let (s, cs) ← Quoted.line '"' cs
      return (.string s, cs)
    | '\'' :: cs => do
      let (s, cs) ← Quoted.line '\'' cs
      return (.string s, cs)
    | '[' :: cs =>
      match depth with
      | 0 => .error .tooDeep
      | depth + 1 => do
        let (vs, cs) ← items (value depth) (cs.length + 1) cs
        return (.array vs, cs)
    | '{' :: cs =>
      match depth with
      | 0 => .error .tooDeep
      | depth + 1 => braced (value depth) cs
    | cs => literal cs

inductive Statement where
  | assign (path : List String) (key : String) (value : Value)
  /-- A header in single brackets. -/
  | openTable (path : List String) (key : String)
  /-- A header in double brackets. -/
  | openElement (path : List String) (key : String)

def header (cs : List Char) : Except Error (Statement × List Char) := do
  match cs with
  | '[' :: cs =>
    let (path, last, cs) ← key cs
    match cs with
    | ']' :: ']' :: cs => return (.openElement path last, cs)
    | c :: _ => .error (.unexpected c)
    | [] => .error .unexpectedEnd
  | cs =>
    let (path, last, cs) ← key cs
    match cs with
    | ']' :: cs => return (.openTable path last, cs)
    | c :: _ => .error (.unexpected c)
    | [] => .error .unexpectedEnd

def assignment (cs : List Char) : Except Error (Statement × List Char) := do
  let (path, last, cs) ← key cs
  match cs with
  | '=' :: cs =>
    let (v, cs) ← value maxDepth (skipBlanks cs)
    return (.assign path last v, cs)
  | c :: _ => .error (.unexpected c)
  | [] => .error .unexpectedEnd

def lineStatement (cs : List Char) : Except Error (Option Statement × List Char) := do
  match skipBlanks cs with
  | [] => return (none, [])
  | c :: rest =>
    if c = '#' ∨ c = '\n' ∨ c = '\r' then return (none, ← endLine (c :: rest))
    else
      let (s, cs) ← if c = '[' then header rest else assignment (c :: rest)
      return (some s, ← endLine cs)

/-- Read all statements; the fuel bounds the number of lines. -/
def statements : Nat → List Char → Except Error (List Statement)
  | _, [] => .ok []
  | 0, c :: _ => .error (.unexpected c)
  | fuel + 1, cs => do
    let (s, cs) ← lineStatement cs
    let later ← statements fuel cs
    return s.toList ++ later

/-- The table into which keys are being defined, and its document. -/
structure Draft where
  current : List String
  entries : Entries

def Draft.carryOut (d : Draft) : Statement → Except Error Draft
  | .assign path key value => do
    let (_, entries) ← descend false (assign path key value) d.current .header d.entries
    return { d with entries := entries }
  | .openTable path key => do
    let (_, entries) ← openTable path key .header d.entries
    return ⟨path ++ [key], entries⟩
  | .openElement path key => do
    let (_, entries) ← openElement path key .header d.entries
    return ⟨path ++ [key], entries⟩

def trimMark : List Char → List Char
  | '\uFEFF' :: cs => cs
  | cs => cs

def parse (text : String) : Except Error Value := do
  let cs := trimMark text.toList
  let ss ← statements cs.length cs
  let d ← ss.foldlM Draft.carryOut ⟨[], []⟩
  return .table .header d.entries

end Tilewalk.Toml
