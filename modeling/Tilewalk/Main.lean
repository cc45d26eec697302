import Tilewalk.Screen.Painter
import Tilewalk.Session

/-! The program on a terminal. Every line of input is a frame: the names of the keys pressed in it,
divided by blanks. A frame takes one tick and is drawn, until the player leaves or the input ends. -/

set_option autoImplicit false

namespace Tilewalk.Program

def game : Game where
  sim := .standard
  stages := StageSource.list "stages" none
  generator seed := .stepping (seed.getD 1) 0x9e3779b97f4a7c15
  wording := ⟨fun _ => "not a stage", fun _ => "not a file"⟩

def screenSize : Nat × Nat := (80, 24)

structure State where
  session : Session
  keyboard : Keyboard
  painter : Screen.Painter

def names (line : String) : List String :=
  (String.ofList (line.toList.filter fun c => decide (' ' ≤ c))).splitOn " "

def press (k : Keyboard) (now : Nat) (line : String) : Keyboard :=
  ((names line).filterMap KeyStroke.ofName?).foldl (fun k s => k.record now now .press s)
    (k.beginFrame now)

/-- What one line of input leads to: the text for the terminal and the state after it, or nothing
when the player leaves. -/
def frame (s : State) (now : Nat) (line : String) : Except Fault (Option (String × State)) := do
  let keyboard := press s.keyboard now line
  if keyboard.wantsQuit then return none
  let session ← s.session.frame game keyboard now
  let (commands, painter) :=
    s.painter.render session.world session.view screenSize.1 screenSize.2
  return some (Screen.Command.encodeAll commands, ⟨session, keyboard, painter⟩)

partial def loop (input output : IO.FS.Stream) (s : State) : IO Unit := do
  let line ← input.getLine
  if line.isEmpty then return
  match frame s (← IO.monoNanosNow) line with
  | .ok (some (text, s)) =>
    output.putStr text
    output.flush
    loop input output s
  | .ok none => return
  | .error _ => IO.eprintln "the simulation cannot go on"

def play : IO Unit := do
  match Session.openFirst game with
  | .ok (some session) =>
    let output ← IO.getStdout
    let (commands, painter) := Screen.Painter.idle.takeOver screenSize.1 screenSize.2
    output.putStr (Screen.Command.encodeAll commands)
    loop (← IO.getStdin) output ⟨session, .idle false, painter⟩
    output.putStr (Screen.Command.encodeAll Screen.Painter.giveBack)
  | _ => IO.eprintln "no stage can be played"

end Tilewalk.Program

def main : IO Unit :=
  Tilewalk.Program.play
