/-! Colours of the terminal: the named ones of its palette and exact ones. -/

set_option autoImplicit false

namespace Tilewalk.Screen

inductive Color where
  | black
  | grey
  | darkGrey
  | red
  | green
  | yellow
  | blue
  | magenta
  | cyan
  | white
  | rgb (r g b : UInt8)
deriving DecidableEq

namespace Color

def base : Color := .rgb 22 22 35

def code : Color → String
  | black => "5;0"
  | grey => "5;7"
  | darkGrey => "5;8"
  | red => "5;9"
  | green => "5;10"
  | yellow => "5;11"
  | blue => "5;12"
  | magenta => "5;13"
  | cyan => "5;14"
  | white => "5;15"
  | rgb r g b =>
    "2;" ++ toString r.toNat ++ ";" ++ toString g.toNat ++ ";" ++ toString b.toNat

end Color
end Tilewalk.Screen
