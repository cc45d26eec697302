import Tilewalk.Config.Basic
import Tilewalk.Files.Tree

/-! Where a configuration is looked for. The first directory with a readable configuration file
counts, and the directory of the stages is looked for in all of them. -/

set_option autoImplicit false

namespace Tilewalk

inductive StagesDir where
  /-- A directory under one of the searched ones. -/
  | found (dir : Path) (name : String)
  | named (name : String)
deriving DecidableEq

structure Config where
  sim : SimConfig
  stagesDir : StagesDir
  verbose : Bool

structure Surroundings where
  files : FileNode
  program : Option Path
  working : Option Path
  home : Option Path

namespace ConfigFile

def fileName : String := "config.toml"

def find (files : FileNode) : List Path → ConfigFile × List ConfigWarning
  | [] => (standard, [])
  | dir :: rest =>
    match files.at? (dir ++ [fileName]) with
    | some (.file text) => parse text
    | some (.folder _) =>
      let (file, warnings) := find files rest
      (file, .unreadable :: warnings)
    | none => find files rest

/-- The directory of the stages: the configured one when it is absolute, the first of that name in the
searched directories otherwise. -/
def locateStages (file : ConfigFile) (files : FileNode) (dirs : List Path) : StagesDir :=
  if Path.isAbsolute file.stagesDir then .named file.stagesDir
  else
    match dirs.find? fun dir => files.isFolderAt (dir ++ Path.ofText file.stagesDir) with
    | some dir => .found dir file.stagesDir
    | none => .named file.stagesDir

def resolve (file : ConfigFile) (files : FileNode) (dirs : List Path) :
    Except Fault (Config × List ConfigWarning) := do
  let (sim, warnings) ← file.sim.legalize
  return (⟨sim, file.locateStages files dirs, file.verbose⟩, warnings)

end ConfigFile

namespace Surroundings

def dataDir : Path := [".local", "share", "tilerunner"]

/-- The directories to search, each once: the program's, the working directory, and the user's data
directory if it exists. -/
def searched (s : Surroundings) : List Path :=
  let data := (s.home.map (· ++ dataDir)).filter s.files.isFolderAt
  let dirs := (s.program.toList ++ s.working.toList ++ data.toList).eraseDups
  if dirs.isEmpty then [["."]] else dirs

end Surroundings

namespace Config

def loadFrom (files : FileNode) (dirs : List Path) : Except Fault (Config × List ConfigWarning) := do
  let (file, readWarnings) := ConfigFile.find files dirs
  let (config, warnings) ← file.resolve files dirs
  return (config, readWarnings ++ warnings)

def load (s : Surroundings) : Except Fault (Config × List ConfigWarning) :=
  loadFrom s.files s.searched

end Config
end Tilewalk
