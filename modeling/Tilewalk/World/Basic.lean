import Tilewalk.Board
import Tilewalk.Config.Sim
import Tilewalk.Contacts
import Tilewalk.Event
import Tilewalk.Timers

/-! The world of an open stage: the board and everything that moves or counts on it. -/

set_option autoImplicit false

namespace Tilewalk

structure World where
  config : SimConfig
  board : Board
  phase : Phase
  registers : Registers
  player : Player
  contacts : Contacts
  timers : Timers
  words : WordSource
  /-- The goal was reached since the last change of phase. -/
  complete : Bool
  time : Float
  tick : UInt64

namespace World

def opened (board : Board) (spawn : Pose) (config : SimConfig) (words : WordSource) :
    Except Fault World := do
  let player ← Player.spawned spawn config.initialSpeed config.maxSpeed
  return {
    config, board, player, words
    phase := .editing
    registers := .fresh
    contacts := .none
    timers := .none
    complete := false
    time := 0
    tick := 0 }

def drainChanges (w : World) : List Event × World :=
  let (changes, registers) := w.registers.drain
  (changes.map Event.ofChange, { w with registers := registers })

/-- Switch to a phase: the registers are prepared, the player and the contacts are told, and hidden
gems come back at once. Asking for the current phase changes nothing. -/
def changePhase (w : World) (target : Phase) : List Event × World :=
  match w.phase.change? target w.registers (w.player, w.contacts) with
  | none => ([], w)
  | some (registers, player, contacts) =>
    let (gems, timers) := w.timers.takeAll
    let (changes, w) := drainChanges { w with
      phase := target
      registers := registers
      player := player
      contacts := contacts
      timers := timers
      complete := false }
    (.phaseChanged target :: gems.map .gemRestored ++ changes, w)

end World
end Tilewalk
