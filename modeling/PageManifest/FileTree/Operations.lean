import PageManifest.FileTree.Basic
import PageManifest.Text.Utf8

/-!
# Operations on file trees

Reading looks through links and changes nothing. Writing replaces the whole content of
one file, or creates it. A directory is created together with the missing ones above it;
those stay even if a later step fails.
-/

namespace PageManifest

namespace FileTree

/-! ## Reading -/

/-- What a path leads to. -/
def stat (tree : FileTree) (path : String) : Except FileFault Entry :=
  match tree.resolve path with
  | .at place =>
    match tree.entry? place with
    | some entry => .ok entry
    | none => .error .notFound
  | .fault fault => .error fault
  | _ => .error .notFound

/-- Whether a path leads to anything. -/
def isPresent (tree : FileTree) (path : String) : Bool := (tree.stat path).toOption.isSome

/-- Whether a path leads to a directory. -/
def isDirectory (tree : FileTree) (path : String) : Bool :=
  (tree.stat path).toOption == some .directory

/-- The bytes of a file. -/
def readBytes (tree : FileTree) (path : String) : Except FileFault ByteArray :=
  match tree.stat path with
  | .ok (.file bytes) => .ok bytes
  | .ok _ => .error .isDirectory
  | .error fault => .error fault

/-- The text of a file. -/
def readText (tree : FileTree) (path : String) : Except FileFault String :=
  match tree.readBytes path with
  | .ok bytes =>
    match Text.Utf8.decode? bytes with
    | some text => .ok text
    | none => .error .notText
  | .error fault => .error fault

/-! ## Writing -/

/-- The place that opening a path for writing gives. A path with a slash at its end names
no file. -/
def target (tree : FileTree) (path : String) : Except FileFault Place :=
  let free (place : Place) : Except FileFault Place :=
    if path.toList.getLast? == some '/' || tree.entry? place = some .directory then
      .error .isDirectory
    else .ok place
  match tree.resolveParts true path (bareSteps path) with
  | .at place => free place
  | .missing directory name => free (directory ++ [name])
  | .link _ _ _ => .error .notFound
  | .fault fault => .error fault

/-- Writes the bytes of a file in place of what it held. -/
def writeBytes (tree : FileTree) (path : String) (bytes : ByteArray) : Except FileFault FileTree :=
  match tree.target path with
  | .ok place => .ok (tree.put place (.file bytes))
  | .error fault => .error fault

/-- Writes a text to a file. -/
def writeText (tree : FileTree) (path : String) (text : String) : Except FileFault FileTree :=
  tree.writeBytes path (Text.Utf8.encode text)

/-- The bytes at a place, none if it is not a file. -/
def bytesAt (tree : FileTree) (place : Place) : ByteArray :=
  match tree.entry? place with
  | some (.file bytes) => bytes
  | _ => .empty

/-- Adds bytes at the end of the file at a place. -/
def appendAt (tree : FileTree) (place : Place) (bytes : ByteArray) : FileTree :=
  tree.put place (.file (tree.bytesAt place ++ bytes))

/-! ## Directories and links -/

/-- Creates one directory. -/
def createDirectory (tree : FileTree) (path : String) : Except FileFault FileTree :=
  match tree.resolveParts false path (bareSteps path) with
  | .at _ => .error .exists
  | .missing directory name =>
    if name = "" then .error .notFound else .ok (tree.put (directory ++ [name]) .directory)
  | .link _ _ _ => .error .exists
  | .fault fault => .error fault

/-- Creates a directory and the missing ones above it: the fault, if there is one, and
the tree behind the attempt. -/
def createDirectories : Nat → FileTree → String → Option FileFault × FileTree
  | fuel, tree, path =>
    if path.isEmpty then (none, tree)
    else
      match tree.createDirectory path with
      | .ok tree => (none, tree)
      | .error fault =>
        if fault ≠ .notFound then
          (if tree.isDirectory path then none else some fault, tree)
        else
          match fuel, Path.parent? path with
          | fuel + 1, some parent =>
            match createDirectories fuel tree parent with
            | (some fault, tree) => (some fault, tree)
            | (none, tree) =>
              match tree.createDirectory path with
              | .ok tree => (none, tree)
              | .error fault => (if tree.isDirectory path then none else some fault, tree)
          | _, _ => (some fault, tree)

/-- Creates a directory and all that leads to it. -/
def ensureDirectory (tree : FileTree) (path : String) : Option FileFault × FileTree :=
  createDirectories (Path.parts path).length tree path

/-- Removes a file or a link; a directory stays. -/
def removeFile (tree : FileTree) (path : String) : Except FileFault FileTree :=
  match tree.resolveParts false path (steps path) with
  | .at place =>
    if tree.entry? place = some .directory then .error .isDirectory else .ok (tree.drop place)
  | .fault fault => .error fault
  | _ => .error .notFound

/-- Creates a link to a path. -/
def createLink (tree : FileTree) (target path : String) : Except FileFault FileTree :=
  match tree.resolveParts false path (steps path) with
  | .at _ => .error .exists
  | .missing directory name => .ok (tree.put (directory ++ [name]) (.link target))
  | .link _ _ _ => .error .exists
  | .fault fault => .error fault

/-! ## Views -/

/-- Whether a place is inside a directory. -/
def isInside (directory place : Place) : Bool :=
  directory.length < place.length && place.take directory.length == directory

/-- The entries inside a directory, by the names that lead to them from there. -/
def below (tree : FileTree) (directory : Place) : List (Place × Entry) :=
  (tree.entries.filter fun entry => isInside directory entry.1).map fun entry =>
    (entry.1.drop directory.length, entry.2)

end FileTree

end PageManifest
