/-! Which keys are held and which were newly pressed. A key counts as held for a while after its last
sign of life, because not every terminal tells when a key is let go. -/

set_option autoImplicit false

namespace Tilewalk

inductive Key where
  | up
  | down
  | left
  | right
  | enter
  | escape
  | tab
  | char (c : Char)
  /-- Any other key, by the name that the terminal has for it. -/
  | other (name : String)
deriving DecidableEq

def Key.ofName? (name : String) : Option Key :=
  match name with
  | "up" => some .up
  | "down" => some .down
  | "left" => some .left
  | "right" => some .right
  | "enter" => some .enter
  | "esc" => some .escape
  | "tab" => some .tab
  | "space" => some (.char ' ')
  | _ =>
    match name.toList with
    | [c] => some (.char c)
    | _ => none

structure KeyStroke where
  key : Key
  control : Bool
deriving DecidableEq

/-- The stroke with a name: that of its key, after `ctrl+` when the control key is down. -/
def KeyStroke.ofName? (name : String) : Option KeyStroke :=
  match name.toList with
  | 'c' :: 't' :: 'r' :: 'l' :: '+' :: c :: rest =>
    (Key.ofName? (String.ofList (c :: rest))).map (⟨·, true⟩)
  | _ => (Key.ofName? name).map (⟨·, false⟩)

def KeyStroke.isInterrupt (k : KeyStroke) : Bool :=
  k.control && (k.key = .char 'c' || k.key = .char 'C')

inductive KeyAction where
  | press
  | repeated
  | release
deriving DecidableEq

structure Keyboard where
  /-- The time in nanoseconds at which each key was last active. -/
  lastActive : List (Key × Nat)
  fresh : List Key
  /-- All strokes, whatever the action. -/
  strokes : List KeyStroke
  /-- Whether releases are told and can be trusted. -/
  honorsRelease : Bool
deriving DecidableEq

namespace Keyboard

/-- Nanoseconds after which a silent key counts as let go. -/
def holdTime : Nat := 160 * 1000000

def idle (honorsRelease : Bool) : Keyboard := ⟨[], [], [], honorsRelease⟩

def isHeld (k : Keyboard) (now : Nat) (key : Key) : Bool :=
  match k.lastActive.lookup key with
  | some t => decide (now - t < holdTime)
  | none => false

def wasPressed (k : Keyboard) (key : Key) : Bool := k.fresh.contains key

def anyPressed (k : Keyboard) (keys : List Key) : Bool := keys.any k.wasPressed

def interrupted (k : Keyboard) : Bool := k.strokes.any (·.isInterrupt)

def wantsQuit (k : Keyboard) : Bool :=
  k.interrupted || k.anyPressed [.char 'q', .escape]

def forget (k : Keyboard) (key : Key) : Keyboard :=
  { k with lastActive := k.lastActive.filter fun e => e.1 != key }

def touch (k : Keyboard) (time : Nat) (key : Key) : Keyboard :=
  let k := k.forget key
  { k with lastActive := (key, time) :: k.lastActive }

/-- Record a stroke that was made at a time and is read now. A press or a repetition of a key that is
not held makes it freshly pressed. -/
def record (k : Keyboard) (now time : Nat) (action : KeyAction) (stroke : KeyStroke) : Keyboard :=
  let k := { k with strokes := k.strokes ++ [stroke] }
  match action with
  | .release => if k.honorsRelease then k.forget stroke.key else k
  | _ =>
    let held := k.isHeld now stroke.key
    let k := k.touch time stroke.key
    if held then k else { k with fresh := k.fresh ++ [stroke.key] }

/-- Begin a frame: nothing was newly pressed yet, and keys that were silent for too long are let go. -/
def beginFrame (k : Keyboard) (now : Nat) : Keyboard :=
  { k with
    fresh := []
    strokes := []
    lastActive := k.lastActive.filter fun e => decide (now - e.2 < holdTime) }

end Keyboard
end Tilewalk
