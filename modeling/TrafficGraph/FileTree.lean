import TrafficGraph.Fault
import TrafficGraph.Text.Lines

/-!
# File trees

The part of a file system that the program sees: what stands at which place,
and the working directory.  A place is the list of the names that lead to it
from the root.  A directory is there if it is listed or if something is listed
below it.

A text leads to a place part by part.  Every part has to be looked up in a
directory that is there, even a part that is empty or made of dots.
-/

namespace TrafficGraph

abbrev Place := List (List Char)

inductive FileEntry where
  | directory
  | file (bytes : List UInt8)
  deriving DecidableEq, Repr

structure FileTree where
  workingDirectory : Place
  entries : List (Place × FileEntry)

namespace FileTree

/-- The tree that holds a working directory and nothing else. -/
def empty (workingDirectory : Place) : FileTree :=
  ⟨workingDirectory, [(workingDirectory, .directory)]⟩

def put (tree : FileTree) (place : Place) (entry : FileEntry) : FileTree :=
  { tree with entries := (tree.entries.filter fun e => e.1 != place) ++ [(place, entry)] }

def content? (tree : FileTree) (place : Place) : Option FileEntry :=
  match tree.entries.find? fun e => e.1 == place with
  | some e => some e.2
  | none =>
    if place.isEmpty || tree.entries.any fun e => place.isPrefixOf e.1 then some .directory
    else none

def isDirectoryAt (tree : FileTree) (place : Place) : Bool :=
  tree.content? place == some .directory

def enter (place : Place) (part : List Char) : Place :=
  if part.isEmpty || part == ['.'] then place
  else if part == ['.', '.'] then place.dropLast
  else place ++ [part]

/-- The place that parts lead to, if they do. -/
def walk (tree : FileTree) : Place → List (List Char) → Option Place
  | place, [] => if (tree.content? place).isSome then some place else none
  | place, part :: rest =>
    if tree.isDirectoryAt place then walk tree (enter place part) rest else none

def startOf (tree : FileTree) (cs : List Char) : Place :=
  if cs.head? = some '/' then [] else tree.workingDirectory

/-- The place that a text leads to, if it does. -/
def resolve? (tree : FileTree) (path : String) : Option Place :=
  let cs := path.toList
  if cs.isEmpty then none else tree.walk (tree.startOf cs) (Text.pieces '/' cs)

/-- The place that a text would lead to if all its parts were there. -/
def placeOf (tree : FileTree) (path : String) : Place :=
  (Text.pieces '/' path.toList).foldl enter (tree.startOf path.toList)

def find? (tree : FileTree) (path : String) : Option FileEntry :=
  (tree.resolve? path).bind tree.content?

def isDirectory (tree : FileTree) (path : String) : Bool :=
  tree.find? path == some .directory

def isFile (tree : FileTree) (path : String) : Bool :=
  match tree.find? path with
  | some (.file _) => true
  | _ => false

/-- The bytes of the file that a text leads to.  What is not there has none. -/
def read (tree : FileTree) (path : String) : Except Fault (List UInt8) :=
  match tree.find? path with
  | some (.file bytes) => .ok bytes
  | some .directory => .error .aDirectory
  | none => .ok []

/-- The name in a directory through which a place is reached, if it is. -/
def nameBelow? (directory place : Place) : Option (List Char) :=
  if directory.isPrefixOf place then (place.drop directory.length).head? else none

/-- The names in the directory that a text leads to, each once. -/
def names (tree : FileTree) (path : String) : List (List Char) :=
  match tree.resolve? path with
  | none => []
  | some directory =>
    (tree.entries.filterMap fun e => nameBelow? directory e.1).eraseDups

end FileTree
end TrafficGraph

/-!
# Paths

A path has a root or none, and parts.  Empty parts and parts that are a single
dot say nothing and are left out; parts that are two dots stay, because what
they mean depends on the files.
-/

namespace TrafficGraph

/-- How a path begins.  Two slashes are not the same root as one; three or more
are. -/
inductive PathRoot where
  | relative
  | single
  | double
  deriving DecidableEq, Repr

/-- A path: its root and its parts. -/
structure Path where
  root : PathRoot
  parts : List (List Char)
  deriving DecidableEq, Repr

def PathRoot.chars : PathRoot → List Char
  | .relative => []
  | .single => ['/']
  | .double => ['/', '/']

namespace Path

def rootOf (cs : List Char) : PathRoot :=
  match (cs.takeWhile (· == '/')).length with
  | 0 => .relative
  | 2 => .double
  | _ => .single

def isPart (part : List Char) : Bool := !(part.isEmpty || part == ['.'])

def ofChars (cs : List Char) : Path :=
  ⟨rootOf cs, (Text.pieces '/' cs).filter isPart⟩

def ofString (s : String) : Path := ofChars s.toList

def child (path : Path) (name : String) : Path :=
  { path with parts := path.parts ++ [name.toList] }

/-- The text of a path.  The path without root and parts is a dot. -/
def chars (path : Path) : List Char :=
  match path.root.chars ++ Text.joinPieces '/' path.parts with
  | [] => ['.']
  | cs => cs

def text (path : Path) : String := String.ofList path.chars

example : (ofString "rel//x/./y").text = "rel/x/y" := by decide +kernel
example : (ofString "//a/../b/").text = "//a/../b" := by decide +kernel
example : (ofString "").text = "." := by decide +kernel

end Path
end TrafficGraph
