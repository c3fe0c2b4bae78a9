import Std.Data.ExtTreeMap
import ShardVault.Bytes
import ShardVault.FileTree.Fault
import ShardVault.FileTree.Path

/-!
File trees.  A tree holds files and directories at places below its top directory, and a path is
followed segment by segment from the top.  An operation that fails leaves the tree as it is,
except that `createDirectories` keeps the directories that it has made so far.
-/

namespace ShardVault

/-- What is at a place of a tree. -/
inductive Entry
  | file (content : Bytes)
  | directory
deriving DecidableEq, Repr

/-- A place of a tree: the names on the way down from the top directory. -/
abbrev Place := List String

/-- The files and directories below a top directory. -/
structure FileTree where
  entries : Std.ExtTreeMap Place Entry

namespace FileTree

/-- The most bytes that a name can have. -/
def maxNameSize : Nat := 255

/-- The most bytes that a path can have. -/
def maxPathSize : Nat := 4095

/-- A tree with nothing below its top directory. -/
def empty : FileTree :=
  ⟨∅⟩

/-- What is at a place; the top is a directory. -/
def entry? (tree : FileTree) (place : Place) : Option Entry :=
  if place = [] then some .directory else tree.entries[place]?

/-- The tree with something else at a place. -/
def put (tree : FileTree) (place : Place) (entry : Entry) : FileTree :=
  ⟨tree.entries.insert place entry⟩

/-- The tree with nothing at a place. -/
def erase (tree : FileTree) (place : Place) : FileTree :=
  ⟨tree.entries.erase place⟩

/-- Where one segment leads from a place, which has to be a directory. -/
def follow (tree : FileTree) (place : Place) (segment : String) : Except FileFault Place :=
  match tree.entry? place with
  | none => .error .notFound
  | some (.file _) => .error .notADirectory
  | some .directory =>
    if segment = "" ∨ segment = "." then .ok place
    else if segment = ".." then .ok place.dropLast
    else if maxNameSize < segment.utf8ByteSize then .error .nameTooLong
    else .ok (place ++ [segment])

/-- Why a path is refused as a whole, before it is followed. -/
def pathFault? (path : Path) : Option FileFault :=
  if path.segments.any (·.toList.contains '\x00') then some .nulInPath
  else if maxPathSize < path.text.utf8ByteSize then some .nameTooLong
  else none

/-- The place that a path leads to.  Everything on the way is there; at the place itself may be
    nothing. -/
def locate (tree : FileTree) (path : Path) : Except FileFault Place :=
  match pathFault? path with
  | some fault => .error fault
  | none => path.segments.foldlM tree.follow []

/-- Whether there is something at the end of a path. -/
def exists? (tree : FileTree) (path : Path) : Except FileFault Bool :=
  match tree.locate path with
  | .ok place => .ok (tree.entry? place).isSome
  | .error .notFound => .ok false
  | .error fault => .error fault

/-- The content of a file. -/
def read (tree : FileTree) (path : Path) : Except FileFault Bytes :=
  match tree.locate path with
  | .error fault => .error fault
  | .ok place =>
    match tree.entry? place with
    | some (.file content) => .ok content
    | some .directory => .error .isADirectory
    | none => .error .notFound

/-- The content of a file that holds a text. -/
def readText (tree : FileTree) (path : Path) : Except FileFault String :=
  match tree.read path with
  | .error fault => .error fault
  | .ok content =>
    match content.text? with
    | some text => .ok text
    | none => .error .notText

/-- Writes a file, over the file that is there if there is one. -/
def write (tree : FileTree) (path : Path) (content : Bytes) : Except FileFault FileTree :=
  match tree.locate path with
  | .error fault => .error fault
  | .ok place =>
    match tree.entry? place with
    | some .directory => .error .isADirectory
    | _ => .ok (tree.put place (.file content))

/-- Removes a file. -/
def remove (tree : FileTree) (path : Path) : Except FileFault FileTree :=
  match tree.locate path with
  | .error fault => .error fault
  | .ok place =>
    match tree.entry? place with
    | some (.file _) => .ok (tree.erase place)
    | some .directory => .error .isADirectory
    | none => .error .notFound

/-- Moves a file, over the file that is at the other path if there is one. -/
def rename (tree : FileTree) (path target : Path) : Except FileFault FileTree :=
  match tree.read path, tree.remove path with
  | .ok content, .ok rest => rest.write target content
  | .error fault, _ => .error fault
  | _, .error fault => .error fault

/-- Whether segments are dots that lead nowhere, one at least. -/
def areDots (segments : List String) : Bool :=
  segments.contains "." && segments.all fun segment => segment == "" || segment == "."

/-- Follows segments from a directory and makes the directories that are missing.  A directory is
    not made if nothing but dots comes after its name. -/
def createAlong (tree : FileTree) (place : Place) : List String → Except FileFault Unit × FileTree
  | [] => (.ok (), tree)
  | segment :: rest =>
    match tree.follow place segment with
    | .error fault => (.error fault, tree)
    | .ok next =>
      match tree.entry? next with
      | some .directory => createAlong tree next rest
      | some (.file _) => (.error .notADirectory, tree)
      | none =>
        if areDots rest then (.error .notFound, tree)
        else createAlong (tree.put next .directory) next rest

/-- Makes the directories of a path, as far as they are missing. -/
def createDirectories (tree : FileTree) (path : Path) : Except FileFault Unit × FileTree :=
  match pathFault? path with
  | some fault => (.error fault, tree)
  | none => tree.createAlong [] path.segments

/-- Removes what is at the end of a path, with everything below it. -/
def removeAll (tree : FileTree) (path : Path) : Except FileFault FileTree :=
  match tree.locate path with
  | .error fault => .error fault
  | .ok top => .ok ⟨tree.entries.filter fun place _ => !top.isPrefixOf place⟩

/-- The names in a directory, in order. -/
def names? (tree : FileTree) (path : Path) : Option (List String) :=
  match tree.locate path with
  | .error _ => none
  | .ok place =>
    match tree.entry? place with
    | some .directory => some <| tree.entries.toList.filterMap fun (other, _) =>
        if other.dropLast = place then other.getLast? else none
    | _ => none

end FileTree

end ShardVault
