import Brainfuck.Path
import Brainfuck.Text.Split

/-!
# File trees

A tree of directories and files, and what reading the file at a path gives: its bytes, or the
error number of the first thing on the way that is not as it should be.

* `FileTree.resolve`: the place that a path leads to.
* `FileTree.read`: the bytes of the file there.

Places are lists of names, outermost last; the root is the empty list, and is a directory. A
tree grows by `FileTree.withDirectory` and `FileTree.withFile`.

Nothing is proved of file trees, and no other module uses them: the tool and its theorems take any
store of files. A driver for tests takes its stores from here.
-/

namespace Brainfuck

/-- What can be at a place. -/
inductive Node where
  | file (content : Array UInt8)
  | directory
  deriving DecidableEq

/-- The names on the way from a place up to the root. -/
abbrev Place := List Bytes

/-- Directories and files, and the directory from which relative paths start. -/
structure FileTree where
  nodes : List (Place × Node)
  start : Place

namespace FileTree

/-- No such file or directory. -/
def missing : IoError := .system 2

/-- A name goes on below something that is no directory. -/
def notADirectory : IoError := .system 20

/-- A directory was to be read as a file. -/
def isADirectory : IoError := .system 21

/-- A name or a path is too long. -/
def tooLong : IoError := .system 36

/-- No path has a zero byte. -/
def zeroByte : IoError := .worded .invalidInput "file name contained an unexpected NUL byte"

/-- The greatest length of a name. -/
def maxName : Nat := 255

/-- The greatest length of a path. -/
def maxPath : Nat := 4095

/-- What is at a place, if anything is. -/
def at? (t : FileTree) (place : Place) : Option Node :=
  if place = [] then some .directory else t.nodes.lookup place

/-- Is there a directory at a place? -/
def isDirectory (t : FileTree) (place : Place) : Bool := t.at? place == some .directory

/-- The names of a path: what stands between its slashes. Slashes in a row count as one. -/
def names (path : Path) : List Bytes := (splitOn Path.slash path).filter (· ≠ [])

/-- One name further from a place. A dot stays, two dots go up. -/
def enter (t : FileTree) (place : Place) (name : Bytes) : Except IoError Place :=
  if !t.isDirectory place then .error notADirectory
  else if name = Path.ofString "." then .ok place
  else if name = Path.ofString ".." then .ok place.tail
  else if maxName < name.length then .error tooLong
  else if (t.at? (name :: place)).isSome then .ok (name :: place)
  else .error missing

/-- The place that a path leads to. A path that ends in a slash leads to a directory. -/
def resolve (t : FileTree) (path : Path) : Except IoError Place := do
  if 0 ∈ path then throw zeroByte
  if path = [] then throw missing
  if maxPath < path.length then throw tooLong
  let first := if path.head? = some Path.slash then [] else t.start
  let place ← (names path).foldlM t.enter first
  if path.getLast? = some Path.slash && !t.isDirectory place then throw notADirectory
  return place

/-- The bytes of the file that a path leads to. -/
def read (t : FileTree) : Files := fun path => do
  let place ← t.resolve path
  match t.at? place with
  | some (.file content) => return content
  | some .directory => throw isADirectory
  | none => throw missing

/-- The tree with directories at a place and at all places above it where there is nothing. -/
def withDirectory (t : FileTree) : Place → FileTree
  | [] => t
  | name :: above =>
    let t := t.withDirectory above
    if (t.at? (name :: above)).isSome then t
    else { t with nodes := (name :: above, .directory) :: t.nodes }

/-- The tree with a file at a place, and with the directories above it. -/
def withFile (t : FileTree) (place : Place) (content : Array UInt8) : FileTree :=
  let t := t.withDirectory place.tail
  { t with nodes := (place, .file content) :: t.nodes }

end FileTree

end Brainfuck
