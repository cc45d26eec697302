import Tilewalk.Screen.Raster

/-! What is sent to the terminal: commands, their written form, and the screen that a terminal shows
after them. -/

set_option autoImplicit false

namespace Tilewalk.Screen

inductive Command where
  | enterAlternate
  | leaveAlternate
  | hideCursor
  | showCursor
  | clear
  | resetColors
  | moveTo (x y : Nat)
  | setForeground (color : Color)
  | setBackground (color : Color)
  | print (c : Char)
deriving DecidableEq

namespace Command

def escape : String := "\x1b["

def encode : Command → String
  | enterAlternate => escape ++ "?1049h"
  | leaveAlternate => escape ++ "?1049l"
  | hideCursor => escape ++ "?25l"
  | showCursor => escape ++ "?25h"
  | clear => escape ++ "2J"
  | resetColors => escape ++ "0m"
  | moveTo x y => escape ++ toString (y + 1) ++ ";" ++ toString (x + 1) ++ "H"
  | setForeground color => escape ++ "38;" ++ color.code ++ "m"
  | setBackground color => escape ++ "48;" ++ color.code ++ "m"
  | print c => c.toString

def encodeAll (commands : List Command) : String :=
  String.join (commands.map encode)

end Command

/-- A terminal: what it shows at each column and row, where its cursor is, and its colours. -/
structure Terminal where
  shows : Nat → Nat → Symbol
  cursor : Nat × Nat
  fg : Color
  bg : Color

namespace Terminal

def obey (t : Terminal) : Command → Terminal
  | .moveTo x y => { t with cursor := (x, y) }
  | .setForeground color => { t with fg := color }
  | .setBackground color => { t with bg := color }
  | .clear => { t with shows := fun _ _ => ⟨' ', t.fg, t.bg⟩ }
  | .print c => { t with
      shows := fun x y => if (x, y) = t.cursor then ⟨c, t.fg, t.bg⟩ else t.shows x y
      cursor := (t.cursor.1 + 1, t.cursor.2) }
  | .resetColors => { t with fg := .white, bg := .black }
  | .enterAlternate | .leaveAlternate | .hideCursor | .showCursor => t

def obeyAll (t : Terminal) (commands : List Command) : Terminal :=
  commands.foldl obey t

end Terminal
end Tilewalk.Screen
