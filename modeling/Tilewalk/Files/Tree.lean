/-! A tree of files, and what its paths lead to. -/

set_option autoImplicit false

namespace Tilewalk

inductive FileNode where
  | file (text : String)
  | folder (entries : List (String × FileNode))

namespace FileNode

def child? : FileNode → String → Option FileNode
  | .folder entries, name => entries.lookup name
  | .file _, _ => none

def isFolder : FileNode → Bool
  | .folder _ => true
  | .file _ => false

/-- Follow names down from a node, with the folders above it nearest first. A dot stays, two dots go
up and stop at the top, and only a folder can be left. -/
def follow : List FileNode → FileNode → List String → Option FileNode
  | _, node, [] => some node
  | above, node, name :: rest =>
    if !node.isFolder then none
    else if name = "" ∨ name = "." then follow above node rest
    else if name = ".." then
      match above with
      | [] => follow [] node rest
      | up :: above => follow above up rest
    else
      match node.child? name with
      | some next => follow (node :: above) next rest
      | none => none

def graft (node : FileNode) : List String → FileNode → FileNode
  | [], _ => node
  | name :: rest, tree =>
    let entries := match tree with
      | .folder entries => entries
      | .file _ => []
    let child := (entries.lookup name).getD (.folder [])
    .folder (entries.filter (·.1 != name) ++ [(name, graft node rest child)])

end FileNode

abbrev Path := List String

namespace Path

def straight (path : Path) : List String :=
  path.foldl (fun names name =>
    if name = "" ∨ name = "." then names
    else if name = ".." then names.dropLast
    else names ++ [name]) []

def size (path : Path) : Nat :=
  path.foldl (fun n name => n + name.utf8ByteSize + 1) 0

def maxSize : Nat := 4095

def ofText (text : String) : Path := text.splitOn "/"

def isAbsolute (text : String) : Bool := text.startsWith "/"

end Path

namespace FileNode

def at? (root : FileNode) (path : Path) : Option FileNode :=
  if path.size ≤ Path.maxSize then follow [] root path else none

def isFolderAt (root : FileNode) (path : Path) : Bool :=
  ((root.at? path).map isFolder).getD false

/-- The tree with a node put at a path, in place of a file that is there. Nothing is put where a folder
is, or where there is no folder to hold it. -/
def put (root : FileNode) (path : Path) (node : FileNode) : FileNode :=
  if root.isFolderAt path.dropLast && !root.isFolderAt path then graft node path.straight root
  else root

def makeFolders (root : FileNode) (done : Path) : Path → FileNode
  | [] => root
  | name :: rest =>
    let here := done ++ [name]
    let root := if (root.at? here).isSome then root else root.put here (.folder [])
    makeFolders root here rest

end FileNode
end Tilewalk
