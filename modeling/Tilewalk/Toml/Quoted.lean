import Tilewalk.Toml.Blank

/-! Strings. The raw text between the quotes is cut out first, and the escapes in it are read
afterwards by a machine that takes one character at a time. -/

set_option autoImplicit false

namespace Tilewalk.Toml.Quoted

/-- The raw text up to the closing quote, and the rest after it. With escapes, a character after a
backslash does not close. -/
def cut (quote : Char) (escapes : Bool) (raw : List Char) :
    List Char → Except Error (List Char × List Char)
  | [] => .error .unexpectedEnd
  | c :: rest =>
    if c = quote then .ok (raw.reverse, rest)
    else if escapes ∧ c = '\\' then
      match rest with
      | [] => .error .unexpectedEnd
      | d :: rest => cut quote escapes (d :: c :: raw) rest
    else cut quote escapes (c :: raw) rest

/-- The raw text up to three closing quotes, and the rest after them. Up to two quotes right before
the closing ones belong to the text; `run` counts the quotes just passed. -/
def cutLong (quote : Char) (escapes : Bool) (run : Nat) (raw : List Char) :
    List Char → Except Error (List Char × List Char)
  | [] =>
    if 3 ≤ run then .ok ((List.replicate (run - 3) quote ++ raw).reverse, [])
    else .error .unexpectedEnd
  | c :: rest =>
    if c = quote then
      if run = 4 then .ok ((quote :: quote :: raw).reverse, rest)
      else cutLong quote escapes (run + 1) raw rest
    else if 3 ≤ run then .ok ((List.replicate (run - 3) quote ++ raw).reverse, c :: rest)
    else
      let raw := List.replicate run quote ++ raw
      if escapes ∧ c = '\\' then
        match rest with
        | [] => .error .unexpectedEnd
        | d :: rest => cutLong quote escapes 0 (d :: c :: raw) rest
      else cutLong quote escapes 0 (c :: raw) rest

def unifyLineEnds : List Char → List Char
  | '\r' :: '\n' :: rest => '\n' :: unifyLineEnds rest
  | c :: rest => c :: unifyLineEnds rest
  | [] => []

def hexDigit? (c : Char) : Option Nat :=
  if '0' ≤ c ∧ c ≤ '9' then some (c.toNat - '0'.toNat)
  else if 'a' ≤ c ∧ c ≤ 'f' then some (c.toNat - 'a'.toNat + 10)
  else if 'A' ≤ c ∧ c ≤ 'F' then some (c.toNat - 'A'.toNat + 10)
  else none

inductive Mode where
  | plain
  | backslash
  | digits (left value : Nat)
  /-- After a backslash and blanks: the line has to end. -/
  | lineEnd
  /-- After a backslash at a line's end: blanks and line ends are passed over. -/
  | joining

def readPlain (long : Bool) (c : Char) : Except Error (Mode × List Char) :=
  if c = '\\' then .ok (.backslash, [])
  else if isText c || (long && c = '\n') then .ok (.plain, [c])
  else .error (.unexpected c)

def readEscape (long : Bool) (c : Char) : Except Error (Mode × List Char) :=
  match c with
  | 'b' => .ok (.plain, ['\x08'])
  | 't' => .ok (.plain, ['\t'])
  | 'n' => .ok (.plain, ['\n'])
  | 'f' => .ok (.plain, ['\x0c'])
  | 'r' => .ok (.plain, ['\r'])
  | '"' => .ok (.plain, ['"'])
  | '\\' => .ok (.plain, ['\\'])
  | 'u' => .ok (.digits 4 0, [])
  | 'U' => .ok (.digits 8 0, [])
  | _ =>
    if long && isBlank c then .ok (.lineEnd, [])
    else if long && c = '\n' then .ok (.joining, [])
    else .error .badEscape

def readDigit (left value : Nat) (c : Char) : Except Error (Mode × List Char) :=
  match hexDigit? c with
  | none => .error .badEscape
  | some d =>
    let value := value * 16 + d
    if left ≤ 1 then
      if value.isValidChar then .ok (.plain, [Char.ofNat value]) else .error .badEscape
    else .ok (.digits (left - 1) value, [])

def read (long : Bool) (mode : Mode) (c : Char) : Except Error (Mode × List Char) :=
  match mode with
  | .plain => readPlain long c
  | .backslash => readEscape long c
  | .digits left value => readDigit left value c
  | .lineEnd =>
    if isBlank c then .ok (.lineEnd, [])
    else if c = '\n' then .ok (.joining, [])
    else .error .badEscape
  | .joining =>
    if isBlank c || c = '\n' then .ok (.joining, []) else readPlain long c

def unescape (long : Bool) (mode : Mode) (text : List Char) :
    List Char → Except Error (List Char)
  | [] =>
    match mode with
    | .plain | .joining => .ok text.reverse
    | _ => .error .badEscape
  | c :: rest => do
    let (mode, out) ← read long mode c
    unescape long mode (out ++ text) rest

def verbatim (long : Bool) (raw : List Char) : Except Error (List Char) :=
  match raw.find? fun c => !(isText c || (long && c = '\n')) with
  | none => .ok raw
  | some c => .error (.unexpected c)

def trimFirstLine : List Char → List Char
  | '\n' :: rest => rest
  | cs => cs

def line (quote : Char) (cs : List Char) : Except Error (String × List Char) := do
  let escapes := decide (quote = '"')
  let (raw, rest) ← cut quote escapes [] cs
  let text ← if escapes then unescape false .plain [] raw else verbatim false raw
  return (String.ofList text, rest)

def block (quote : Char) (cs : List Char) : Except Error (String × List Char) := do
  let escapes := decide (quote = '"')
  let (raw, rest) ← cutLong quote escapes 0 [] cs
  let raw := trimFirstLine (unifyLineEnds raw)
  let text ← if escapes then unescape true .plain [] raw else verbatim true raw
  return (String.ofList text, rest)

end Tilewalk.Toml.Quoted
