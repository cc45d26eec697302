import Tilewalk.Files.Tree
import Tilewalk.Stage.Basic

/-! The list of stages that can be opened: the built-in one and then the stage files of a directory by
name. -/

set_option autoImplicit false

namespace Tilewalk

inductive StageSource where
  | builtIn
  | file (dir name : String) (node : FileNode)

namespace StageSource

def builtInText : String :=
  "name = \"First Steps\"
description = \"The last arrow points off the edge. Turn it toward the goal.\"

# 2 start, 3 goal, 4..7 arrows (up, right, down, left)
map = [
  [0, 0, 3],
  [0, 0, 1],
  [5, 1, 6],
  [2, 0, 0],
]

editable = [
  [0, 0, 0],
  [0, 0, 0],
  [0, 0, 1],
  [0, 0, 0],
]
"

def label : StageSource → String
  | builtIn => "built-in"
  | file _ name _ => name

def pathOf (dir name : String) : String :=
  if dir.isEmpty || dir.endsWith "/" then dir ++ name else dir ++ "/" ++ name

def loadWithNotices : StageSource → Except StageError (Stage × List Notice)
  | builtIn => Stage.parse builtInText
  | file _ _ (.file text) => Stage.parse text
  | file dir name (.folder _) => .error (.unreadable (pathOf dir name))

def load (s : StageSource) : Except StageError Stage :=
  s.loadWithNotices.map (·.1)

/-- Whether a file is listed: its name ends in `.toml` after at least one other character. -/
def isListed (name : String) : Bool :=
  name.endsWith ".toml" && decide (5 < name.length)

/-- The built-in stage and then the stage files of a directory, ordered by name. A directory that is
missing adds nothing. -/
def list (dir : String) (node : Option FileNode) : List StageSource :=
  let entries := match node with
    | some (.folder entries) => entries
    | _ => []
  let listed := (entries.filter fun e => isListed e.1).mergeSort fun a b => decide (a.1 ≤ b.1)
  builtIn :: listed.map fun (name, node) => file dir name node

end StageSource
end Tilewalk
