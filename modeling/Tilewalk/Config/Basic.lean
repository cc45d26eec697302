import Tilewalk.Config.Sim
import Tilewalk.Toml.Decode
import Tilewalk.Toml.Parser

/-! Configurations: the settings of the simulation, the directory of the stages, and how much is
logged. Every setting has a default. -/

set_option autoImplicit false

namespace Tilewalk

/-- A configuration as it is written, before its settings are brought into range. -/
structure ConfigFile where
  sim : SimConfig
  stagesDir : String
  verbose : Bool

namespace ConfigFile

def standard : ConfigFile := ⟨.standard, "stages", false⟩

def simOfToml (v : Toml.Value) : Except Toml.Error SimConfig := do
  let std := SimConfig.standard
  let fields ← v.toRecord ["tick_rate_ms", "initial_speed", "max_speed", "teleport_cooldown",
    "gravity", "player_half_extent", "trigger_half_extent", "fall_seed"]
  return {
    tickRateMs := ← fields.optional "tick_rate_ms" std.tickRateMs (·.toUInt64)
    initialSpeed := ← fields.optional "initial_speed" std.initialSpeed (·.toFloat32)
    maxSpeed := ← fields.optional "max_speed" std.maxSpeed (·.toFloat32)
    teleportCooldown := ← fields.optional "teleport_cooldown" std.teleportCooldown (·.toFloat32)
    gravity := ← fields.optional "gravity" std.gravity (·.toFloat32)
    playerHalfExtent := ← fields.optional "player_half_extent" std.playerHalfExtent (·.toFloat32)
    triggerHalfExtent := ← fields.optional "trigger_half_extent" std.triggerHalfExtent (·.toFloat32)
    fallSeed := ← fields.optional "fall_seed" none fun v => some <$> v.toUInt64 }

def generalOfToml (v : Toml.Value) : Except Toml.Error (String × Bool) := do
  let fields ← v.toRecord ["stages_dir", "verbose"]
  return (← fields.optional "stages_dir" standard.stagesDir (·.toText),
    ← fields.optional "verbose" standard.verbose (·.toBoolean))

def ofToml (v : Toml.Value) : Except Toml.Error ConfigFile := do
  let fields ← v.toRecord ["sim", "general"]
  let sim ← fields.optional "sim" standard.sim simOfToml
  let (stagesDir, verbose) ←
    fields.optional "general" (standard.stagesDir, standard.verbose) generalOfToml
  return { sim, stagesDir, verbose }

/-- Read the text of a configuration; one that is not valid counts as one that names nothing. -/
def parse (text : String) : ConfigFile × List ConfigWarning :=
  match Toml.parse text >>= ofToml with
  | .ok file => (file, [])
  | .error _ => (standard, [.invalid])

end ConfigFile
end Tilewalk
