import Tilewalk.Toml.Error

/-! Characters between values: blanks, line ends and comments. -/

set_option autoImplicit false

namespace Tilewalk.Toml

def isBlank (c : Char) : Bool := c = ' ' || c = '\t'

/-- A character that may stand in a comment or a string: no control character but the tab. -/
def isText (c : Char) : Bool := c = '\t' || (' ' ≤ c && c ≠ '\x7f')

def skipBlanks (cs : List Char) : List Char := cs.dropWhile isBlank

/-- Skip blanks, line ends and comments. A comment ends with its line. -/
def skipTrivia (inComment : Bool) : List Char → Except Error (List Char)
  | [] => if inComment then .error .unexpectedEnd else .ok []
  | '\n' :: rest => skipTrivia false rest
  | '\r' :: '\n' :: rest => skipTrivia false rest
  | c :: rest =>
    if inComment then
      if isText c then skipTrivia true rest else .error (.unexpected c)
    else if isBlank c then skipTrivia false rest
    else if c = '#' then skipTrivia true rest
    else .ok (c :: rest)

def endLine (cs : List Char) : Except Error (List Char) :=
  let cs := skipBlanks cs
  let cs := match cs with
    | '#' :: rest => rest.dropWhile isText
    | _ => cs
  match cs with
  | [] => .ok []
  | '\n' :: rest => .ok rest
  | '\r' :: '\n' :: rest => .ok rest
  | c :: _ => .error (.unexpected c)

end Tilewalk.Toml
