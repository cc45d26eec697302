import Tilewalk.Screen.Command
import Tilewalk.Screen.Compose

/-! The painter keeps the frame that the terminal shows and sends only what differs from it in the new
one. After a change of size or of phase it takes the whole screen for unknown and paints everything. -/

set_option autoImplicit false

namespace Tilewalk.Screen

/-- The colours in force and the place of the next character, as far as they are known. -/
structure Pen where
  fg : Color
  bg : Color
  place : Option (Nat × Nat)
deriving DecidableEq

namespace Pen

def initial : Pen := ⟨.white, .base, none⟩

/-- The commands that put a symbol at a place, leaving out those without effect, and the pen after
them. -/
def put (pen : Pen) (x y : Nat) (s : Symbol) : List Command × Pen :=
  ((if pen.place = some (x, y) then [] else [.moveTo x y])
    ++ (if s.fg = pen.fg then [] else [.setForeground s.fg])
    ++ (if s.bg = pen.bg then [] else [.setBackground s.bg])
    ++ [.print s.char],
    ⟨s.fg, s.bg, some (x + 1, y)⟩)

def putAll (pen : Pen) : List (Nat × Nat × Symbol) → List Command
  | [] => []
  | (x, y, s) :: rest =>
    let (commands, pen) := pen.put x y s
    commands ++ putAll pen rest

end Pen

/-- Two frames take turns: the new picture is drawn into the front one, and the back one holds what
the terminal shows. -/
structure Painter where
  front : Frame
  back : Frame
  width : Nat
  height : Nat
  lastPhase : Option Phase

namespace Painter

def idle : Painter := ⟨.fill 0 0 .blank, .fill 0 0 .blank, 0, 0, none⟩

def forget (p : Painter) : Painter :=
  { p with back := p.back.refill .unknown }

def fit (p : Painter) (width height : Nat) : Painter :=
  forget { p with
    front := p.front.resize width height .blank
    back := p.back.resize width height .blank
    width := width
    height := height }

def enterPhase (p : Painter) (phase : Phase) : Painter :=
  if p.lastPhase = some phase then p else { p.forget with lastPhase := some phase }

def differences (shown new : Frame) : List (Nat × Nat × Symbol) :=
  new.places.filterMap fun (x, y) =>
    let s := new.get x y
    if s = shown.get x y then none else some (x, y, s)

def paint (shown new : Frame) : List Command :=
  .setForeground .white :: .setBackground .base :: Pen.initial.putAll (differences shown new)

def takeOver (p : Painter) (width height : Nat) : List Command × Painter :=
  ([.enterAlternate, .hideCursor, .setBackground .base, .clear], p.fit width height)

def giveBack : List Command := [.resetColors, .showCursor, .leaveAlternate]

def resized (p : Painter) (width height : Nat) : Bool :=
  decide (width ≠ p.width ∨ height ≠ p.height)

/-- Take over a changed size and a changed phase, each of which makes the screen unknown. -/
def prepare (p : Painter) (phase : Phase) (width height : Nat) : Painter :=
  (if p.resized width height then p.fit width height else p).enterPhase phase

/-- Draw a world for a terminal of a size, and send what is not shown yet. The frames then change
places. -/
def render (p : Painter) (w : World) (v : View) (width height : Nat) : List Command × Painter :=
  let cleared := if p.resized width height then [.setBackground .base, .clear] else []
  let p := p.prepare w.phase width height
  let new := draw w v (p.front.refill .blank)
  (cleared ++ paint p.back new, { p with front := p.back, back := new })

end Painter
end Tilewalk.Screen
