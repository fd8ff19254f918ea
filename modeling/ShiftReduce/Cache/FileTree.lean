import ShiftReduce.Cache.Path
import ShiftReduce.Cache.Storage
/-!
# A disk in memory

A tree of files and directories as a list of what stands at which location. A path is followed step
by step from the root: every step starts from a directory that is there, and two dots lead to the
directory above. So a path through a directory that is missing leads nowhere, even if two dots leave
the directory at once or a single dot stays in it.

The operations fail where those of a disk fail: a file cannot be read if it is a directory or lies
below a file, and a directory cannot be created where a file stands. What an operation has done
before it fails is not undone.
-/

namespace ShiftReduce

/-- A place in a tree: the names of the directories on the way from the root, and its own. -/
abbrev Location := List (List Char)

/-- The place that a step of a path leads to. There is nothing above the root. -/
def Location.step (p : Location) (name : List Char) : Location :=
  if name = ['.', '.'] then p.dropLast
  else if name = ['.'] then p
  else p ++ [name]

/-- The place that a path names if all directories on it are there. -/
def Location.ofPath (path : String) : Location := (Path.steps path).foldl Location.step []

/-- What stands at a location. -/
inductive FileNode where
  | file (contents : Bytes)
  | directory
  deriving DecidableEq, Inhabited

/-- Files and directories by location. -/
structure FileTree where
  nodes : List (Location × FileNode)

namespace FileTree

/-- Nothing but the root. -/
def empty : FileTree := ⟨[]⟩

/-- What stands at a location. -/
def node? (t : FileTree) (p : Location) : Option FileNode :=
  if p = [] then some .directory else t.nodes.lookup p

/-- Is there a directory? -/
def isDirectory (t : FileTree) (p : Location) : Bool := t.node? p == some .directory

/-- The bytes of the file, if there is one. -/
def contents? (t : FileTree) (p : Location) : Option Bytes :=
  match t.node? p with
  | some (.file contents) => some contents
  | _ => none

/-- Puts a file or a directory at a location. -/
def put (t : FileTree) (p : Location) (node : FileNode) : FileTree :=
  ⟨(p, node) :: t.nodes.filter fun e => e.1 != p⟩

/-- Removes a location and all that lies below it. -/
def removeAll (t : FileTree) (p : Location) : FileTree :=
  ⟨t.nodes.filter fun e => !p.isPrefixOf e.1⟩

/-- The number of files and directories in a directory. -/
def entryCount (t : FileTree) (p : Location) : Nat :=
  t.nodes.countP fun e => p.isPrefixOf e.1 && e.1.length == p.length + 1

end FileTree

/-! ## Following paths -/

/-- Why an operation fails. -/
inductive Obstacle where
  | missing
  | notDirectory
  | isDirectory
  | occupied
  | nameTooLong
  deriving DecidableEq, Inhabited

/-- The obstacle in words. -/
def Obstacle.message : Obstacle → String
  | missing => "no such file or directory"
  | notDirectory => "not a directory"
  | isDirectory => "is a directory"
  | occupied => "file exists"
  | nameTooLong => "file name too long"

namespace FileTree

/-- The most bytes in the name of a file or a directory. -/
def nameLimit : Nat := 255

/-- The most bytes in a path. -/
def pathLimit : Nat := 4095

/-- Takes steps of a path from a place. What stands at the end is left open. -/
def follow (t : FileTree) (p : Location) : List (List Char) → Except Obstacle Location
  | [] => .ok p
  | name :: rest =>
    match t.node? p with
    | some .directory =>
      if nameLimit < (String.ofList name).utf8ByteSize then .error .nameTooLong
      else t.follow (p.step name) rest
    | some (.file _) => .error .notDirectory
    | none => .error .missing

/-- The place that a path leads to. -/
def locate (t : FileTree) (path : String) : Except Obstacle Location :=
  if pathLimit < path.utf8ByteSize then .error .nameTooLong
  else t.follow [] (Path.steps path)

/-- Reads a file. -/
def read (t : FileTree) (path : String) : Except Obstacle Bytes := do
  match t.node? (← t.locate path) with
  | some (.file contents) => return contents
  | some .directory => throw .isDirectory
  | none => throw .missing

/-! ## Changes -/

/-- A change of a tree, which may fail half-way. What was done before stays. -/
abbrev Change := ExceptT Obstacle (StateM FileTree) Unit

/-- Removes a file. -/
def remove (path : String) : Change := do
  let t ← get
  let p ← t.locate path
  match t.node? p with
  | some (.file _) => set (t.removeAll p)
  | some .directory => throw .isDirectory
  | none => throw .missing

/-- Creates a directory in one that is there, unless there is such a directory already. -/
def createDirectory (path : String) : Change := do
  let t ← get
  let p ← t.locate path
  match t.node? p with
  | some .directory => return ()
  | some (.file _) => throw .occupied
  | none => set (t.put p .directory)

/-- Creates a directory. If something is missing on the way, its parents, the nearest first, are
created before it. -/
def createWithParents (path : String) : List String → Change
  | [] => createDirectory path
  | parent :: more =>
    tryCatch (createDirectory path) fun
      | .missing => do
        createWithParents parent more
        createDirectory path
      | obstacle => throw obstacle

/-- Creates a directory and all that are missing on the path to it, also those that two dots leave
again. A single dot at the end needs the directory that it stays in: that one is not created. The
empty path is the place where one is. -/
def createDirectories (path : String) : Change :=
  if path.isEmpty then return () else createWithParents path (Path.parents path)

/-- Writes a file, unless something is there. -/
def writeNew (path : String) (contents : Bytes) : Change := do
  let t ← get
  let p ← t.locate path
  if (t.node? p).isNone then set (t.put p (.file contents))

/-- Creates a directory and writes a file of it, unless something is there. -/
def publish (directory path : String) (contents : Bytes) : Change := do
  createDirectories directory
  writeNew path contents

/-- What comes of a change, and the tree after it. -/
def change (t : FileTree) (c : Change) : Except Obstacle Unit × FileTree := c.run.run t

end FileTree

/-! ## As storage -/

/-- A disk in memory with a clock. -/
structure MemoryDisk where
  /-- The time in milliseconds. -/
  time : Nat
  tree : FileTree

namespace MemoryDisk

/-- Changes the tree. -/
def change (c : FileTree.Change) : StateM MemoryDisk (Except String Unit) := do
  let disk ← get
  let (result, tree) := disk.tree.change c
  set { disk with tree }
  return result.mapError Obstacle.message

/-- Reads a file. -/
def read (path : String) : StateM MemoryDisk Reading := do
  match (← get).tree.read path with
  | .ok contents => return .contents contents
  | .error .missing => return .missing
  | .error obstacle => return .failed obstacle.message

/-- The disk as storage of a cache. -/
def storage : Storage (StateM MemoryDisk) where
  now := do return (← get).time
  read := read
  remove path := change (FileTree.remove path)
  publish directory path contents := change (FileTree.publish directory path contents)

end MemoryDisk

end ShiftReduce
