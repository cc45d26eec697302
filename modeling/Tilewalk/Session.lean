import Tilewalk.Keyboard
import Tilewalk.Stage.Listing
import Tilewalk.View
import Tilewalk.World.Command

/-! A session: one open stage with its view. Keys run and stop the simulation, move the author's
cursor, edit the tile under it, and lead from stage to stage around the list. -/

set_option autoImplicit false

namespace Tilewalk

structure Game where
  sim : SimConfig
  stages : List StageSource
  /-- The words of tumbles, by the seed that is configured for them. -/
  generator : Option UInt64 → WordSource
  wording : Wording

namespace Game

def words (g : Game) : WordSource :=
  g.generator g.sim.fallSeed

end Game

structure Session where
  world : World
  view : View

inductive OpenError where
  | noSuchStage (index : Nat)
  | stage (error : StageError)
  | fault (cause : Fault)
deriving DecidableEq

namespace Session

/-- The message with which a stage greets: its description, or its name when it has none. -/
def greeting (stage : Stage) : String :=
  if stage.description.isEmpty then stage.name else stage.description

def start (g : Game) (index : Nat) (stage : Stage) : Except Fault Session := do
  let world ← World.opened stage.board stage.spawn g.sim g.words
  let view := View.opened (.containing stage.spawn.position) index g.stages.length
  return { world, view := view.setMessage (greeting stage) }

def openAt (g : Game) (index : Nat) : Except OpenError Session :=
  match g.stages[index]? with
  | none => .error (.noSuchStage index)
  | some source =>
    match source.load with
    | .error e => .error (.stage e)
    | .ok stage => (start g index stage).mapError .fault

def openFirstFrom (g : Game) (index : Nat) : List StageSource → Except Fault (Option Session)
  | [] => .ok none
  | _ :: rest =>
    match openAt g index with
    | .ok s => .ok (some s)
    | .error (.fault f) => .error f
    | .error _ => openFirstFrom g (index + 1) rest

def openFirst (g : Game) : Except Fault (Option Session) :=
  openFirstFrom g 0 g.stages

/-- The place of the list that is `step` places further around it, in the arithmetic of 32-bit words. -/
def neighbour (g : Game) (s : Session) (step : Int32) : Nat :=
  ((Int32.ofNat s.view.stageIndex + step).toInt % (Int32.ofNat g.stages.length).toInt).toNat

def loadMessage (g : Game) (index : Nat) (e : StageError) : String :=
  ((g.stages[index]?.map (·.label)).getD "") ++ ": " ++ e.message g.wording

/-- Switch to another stage of the list; when it does not load, only the message changes. -/
def switch (g : Game) (s : Session) (step : Int32) : Except Fault Session :=
  let index := neighbour g s step
  match openAt g index with
  | .ok next => .ok next
  | .error (.fault f) => .error f
  | .error (.stage e) => .ok { s with view := s.view.setMessage (loadMessage g index e) }
  | .error (.noSuchStage _) => .ok s

def follow (s : Session) (events : List Event) : Session :=
  { s with view := s.view.apply events s.world.board }

def togglePhase (s : Session) : Session :=
  let (events, world) := s.world.changePhase s.world.phase.toggled
  follow { s with world := world } events

def resetSpeed (g : Game) (s : Session) : Session :=
  { s with world := s.world.withPlayer (·.setSpeed g.sim.initialSpeed) }

def moveCursor (s : Session) (dx dz : Int32) : Session :=
  { s with view := s.view.moveCursor dx dz s.world.board }

/-- The cursor keys with the way they move the cursor, in the order in which they count. -/
def cursorKeys : List (Key × Int32 × Int32) :=
  [(.up, 0, 1), (.down, 0, -1), (.left, -1, 0), (.right, 1, 0)]

/-- The edit keys with their edits; only the first one pressed counts. -/
def editKeys : List (Key × Edit) :=
  [(.enter, .rotate),
    (.char '[', .cycleRegister (-1)), (.char ']', .cycleRegister 1),
    (.char ',', .cycleOperation (-1)), (.char '.', .cycleOperation 1),
    (.char '-', .adjustValue (-1)), (.char '+', .adjustValue 1), (.char '=', .adjustValue 1)]

def editSelected (s : Session) (e : Edit) : Session :=
  match s.view.selected? s.world.board with
  | none => { s with view := s.view.setMessage "No tile here" }
  | some tile =>
    match s.world.edit tile e with
    | .ok (event, world) => follow { s with world := world } [event]
    | .error refusal => { s with view := s.view.setMessage refusal.message }

def handleStageKeys (g : Game) (pressed : Key → Bool) (s : Session) : Session :=
  let s := if pressed (.char ' ') then s.togglePhase else s
  let s := if pressed (.char 'r') then s.resetSpeed g else s
  let s := cursorKeys.foldl (fun s (key, dx, dz) => if pressed key then s.moveCursor dx dz else s) s
  match editKeys.find? fun (key, _) => pressed key with
  | some (_, e) => s.editSelected e
  | none => s

/-- Handle the newly pressed keys of a frame. A switch of stage leaves the other keys aside. -/
def handleKeys (g : Game) (pressed : Key → Bool) (s : Session) : Except Fault Session :=
  if pressed (.char 'n') then s.switch g 1
  else if pressed (.char 'p') then s.switch g (-1)
  else .ok (s.handleStageKeys g pressed)

def tick (s : Session) : Except Fault (List Event × Session) := do
  let (events, world) ← s.world.step
  let s := follow { s with world := world } events
  return (events, { s with view := s.view.tick })

def changeSpeed (s : Session) (delta : Float32) : Session :=
  { s with world := s.world.withPlayer (·.changeSpeed delta) }

def speedStep : Float32 := 0.05

/-- Go faster while `f` is held and slower while `s` is held. -/
def holdSpeedKeys (held : Key → Bool) (s : Session) : Session :=
  let s := if held (.char 'f') then s.changeSpeed speedStep else s
  if held (.char 's') then s.changeSpeed (-speedStep) else s

/-- One frame with a tick: the newly pressed keys count first, then the held ones. -/
def frame (g : Game) (k : Keyboard) (now : Nat) (s : Session) : Except Fault Session := do
  let s ← s.handleKeys g k.wasPressed
  let (_, s) ← (s.holdSpeedKeys (k.isHeld now)).tick
  return s

end Session
end Tilewalk
