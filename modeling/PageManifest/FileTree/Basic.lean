import PageManifest.FileTree.Path
import PageManifest.OrderedMap

/-!
# File trees

A file tree says what is at each place. A place is the list of names that lead to it from
the root, without links; the root itself is always a directory. Operations take paths,
which are resolved from a working directory with links followed.
-/

namespace PageManifest

/-- The names that lead from the root to an entry. -/
abbrev Place := List String

/-- Two contents are compared byte by byte. -/
local instance decidableEqBytes : DecidableEq ByteArray := ByteArray.instDecidableEq

/-- What can be at a place. -/
inductive Entry where
  | file (bytes : ByteArray)
  | directory
  | link (target : String)
deriving DecidableEq

/-- Why an operation on files fails. -/
inductive FileFault where
  | notFound
  | exists
  | notDirectory
  | isDirectory
  | nameTooLong
  | tooManyLinks
  | zeroInPath
  | notText
deriving DecidableEq, Repr

/-- Why an operation fails, in words. -/
def FileFault.message : FileFault → String
  | .notFound => "No such file or directory (os error 2)"
  | .exists => "File exists (os error 17)"
  | .notDirectory => "Not a directory (os error 20)"
  | .isDirectory => "Is a directory (os error 21)"
  | .nameTooLong => "File name too long (os error 36)"
  | .tooManyLinks => "Too many levels of symbolic links (os error 40)"
  | .zeroInPath => "file name contained an unexpected NUL byte"
  | .notText => "stream did not contain valid UTF-8"

/-- What is at each place, and where relative paths start. -/
structure FileTree where
  entries : OrderedMap Place Entry
  workingDirectory : Place

namespace FileTree

/-- What is at a place. -/
def entry? (tree : FileTree) (place : Place) : Option Entry :=
  if place.isEmpty then some .directory else OrderedMap.get? tree.entries place

/-- Puts an entry at a place. -/
def put (tree : FileTree) (place : Place) (entry : Entry) : FileTree :=
  { tree with entries := OrderedMap.insert tree.entries place entry }

/-- Removes what is at a place. -/
def drop (tree : FileTree) (place : Place) : FileTree :=
  { tree with entries := tree.entries.filter (·.1 ≠ place) }

/-! ## Resolving paths -/

/-- Where following a path ends. -/
inductive Arrival where
  /-- At an entry. -/
  | at (place : Place)
  /-- At a name that is not in its directory. -/
  | missing (directory : Place) (name : String)
  /-- At a link, with the parts that come behind it. -/
  | link (directory : Place) (target : String) (behind : List String)
  | fault (fault : FileFault)

/-- The greatest number of bytes in a name. -/
def nameLimit : Nat := 255

/-- Follows parts from a directory up to the first link. A link at the end may be left
unfollowed. -/
def follow (tree : FileTree) (followLast : Bool) : Place → List String → Arrival
  | place, [] => .at place
  | place, part :: behind =>
    match tree.entry? place with
    | some .directory =>
      if part = "." || part = "" then follow tree followLast place behind
      else if part = ".." then follow tree followLast place.dropLast behind
      else if nameLimit < part.utf8ByteSize then .fault .nameTooLong
      else
        match tree.entry? (place ++ [part]) with
        | none => if behind.isEmpty then .missing place part else .fault .notFound
        | some (.link target) =>
          if behind.isEmpty && !followLast then .at (place ++ [part])
          else .link place target behind
        | some _ => follow tree followLast (place ++ [part]) behind
    | some _ => .fault .notDirectory
    | none => .fault .notFound

/-- How many links may be followed. -/
def linkLimit : Nat := 40

/-- Where a path starts. -/
def origin (directory : Place) (path : String) : Place :=
  if Path.isAbsolute path then [] else directory

/-- The parts of a path to follow. A slash at the end asks for a directory. -/
def steps (path : String) : List String :=
  let named := (Path.pieces path).filter (!·.isEmpty)
  if path.toList.getLast? == some '/' then named ++ ["."] else named

/-- Follows parts and the links among them. -/
def arrive (tree : FileTree) (followLast : Bool) : Nat → Place → List String → Arrival
  | budget, place, parts =>
    match tree.follow followLast place parts with
    | .link directory target behind =>
      match budget with
      | 0 => .fault .tooManyLinks
      | budget + 1 =>
        arrive tree followLast budget (origin directory target) (steps target ++ behind)
    | arrival => arrival

/-- The greatest number of bytes in a path. -/
def pathLimit : Nat := 4095

/-- Where some parts of a path lead from the working directory. -/
def resolveParts (tree : FileTree) (followLast : Bool) (path : String) (parts : List String) :
    Arrival :=
  if path.toList.contains '\x00' then .fault .zeroInPath
  else if path.isEmpty then .fault .notFound
  else if pathLimit < path.utf8ByteSize then .fault .nameTooLong
  else tree.arrive followLast linkLimit (origin tree.workingDirectory path) parts

/-- Where a path leads, all links being followed. -/
def resolve (tree : FileTree) (path : String) : Arrival :=
  tree.resolveParts true path (steps path)

/-- The parts of a path without a slash at the end. -/
def bareSteps (path : String) : List String := (Path.pieces path).filter (!·.isEmpty)

end FileTree

end PageManifest
