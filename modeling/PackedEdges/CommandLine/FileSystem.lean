import PackedEdges.Error

/-! The files that a run reads and writes, behind an interface: a run can work on the disk of a
computer or on a tree of directories that is a value. -/

namespace PackedEdges.CommandLine

structure FileSystem (m : Type → Type) where
  read : String → m (Except FileFault ByteArray)
  write : String → ByteArray → m (Except FileFault Unit)

structure Path where
  isAbsolute : Bool
  names : List String
  /-- A slash at the end: only a directory may stand there. -/
  endsInSlash : Bool
deriving DecidableEq

namespace Path

def maxNameBytes : Nat := 255

def maxBytes : Nat := 4095

/-- Slashes separate names, and several of them count as one. -/
def ofString (text : String) : Except FileFault Path :=
  if text = "" then .error .notFound
  else if maxBytes < text.utf8ByteSize then .error .nameTooLong
  else
    let parts := text.splitOn "/"
    .ok
      { isAbsolute := parts.head? = some ""
        names := parts.filter (· ≠ "")
        endsInSlash := parts.getLast? = some "" }

end Path

/-- A place in a tree of directories: the names on the way from the root, the last one first. -/
abbrev Place := List String

inductive Node
  | directory
  | file (content : ByteArray)

structure Disk where
  node? : Place → Option Node
  workplace : Place

namespace Disk

/-- The place that a name leads to; nothing has to stand there, but it leads on from directories
only. -/
def step (disk : Disk) (place : Place) (name : String) : Except FileFault Place :=
  match disk.node? place with
  | none => .error .notFound
  | some (.file _) => .error .notDirectory
  | some .directory =>
    if name = "." then .ok place
    else if name = ".." then .ok place.tail
    else if Path.maxNameBytes < name.utf8ByteSize then .error .nameTooLong
    else .ok (name :: place)

def locate (disk : Disk) (path : Path) : Except FileFault Place :=
  path.names.foldlM disk.step (if path.isAbsolute then [] else disk.workplace)

def read (disk : Disk) (text : String) : Except FileFault ByteArray := do
  let path ← Path.ofString text
  match disk.node? (← disk.locate path) with
  | none => .error .notFound
  | some .directory => .error .isDirectory
  | some (.file content) => if path.endsInSlash then .error .notDirectory else .ok content

def put (disk : Disk) (place : Place) (content : ByteArray) : Disk :=
  { disk with
    node? := fun other => if other = place then some (.file content) else disk.node? other }

/-- The disk with new content under a path. Where no file stands one is made. -/
def write (disk : Disk) (text : String) (content : ByteArray) : Except FileFault Disk := do
  let path ← Path.ofString text
  let place ← disk.locate path
  match path.endsInSlash, disk.node? place with
  | true, _ => .error .isDirectory
  | _, some .directory => .error .isDirectory
  | _, _ => .ok (disk.put place content)

def fileSystem : FileSystem (StateM Disk) where
  read path := return (← get).read path
  write path content := do
    match (← get).write path content with
    | .ok disk =>
      set disk
      return .ok ()
    | .error fault => return .error fault

end Disk

end PackedEdges.CommandLine
