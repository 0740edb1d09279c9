import PageManifest.FileTree.Operations
import PageManifest.Log.Basic

/-!
# Log files

A log file has the time in its name, and the link `latest.log` beside it leads to it.
Whatever is written to a log file goes to its end.
-/

namespace PageManifest

/-- A log file that is open for writing. -/
structure LogFile where
  path : String
  /-- Where the file is, whatever its path leads to later. -/
  place : Place
deriving DecidableEq, Repr

namespace LogFile

/-- Where log files are kept below the directory for data. -/
def directoryBelow (directory : String) : String :=
  Path.join (Path.join directory "manifest-client") "logs"

/-- The name of the log file of a time. -/
def nameAt (stamp : String) : String := "manifest-client_" ++ stamp ++ ".log"

/-- The path of the link to the log file in a directory. -/
def latestIn (directory : String) : String := Path.join directory "latest.log"

/-- Opens a file for writing at its end: its place, and the tree in which it exists. -/
def openForAppending (tree : FileTree) (path : String) : Except FileFault (Place × FileTree) :=
  match tree.target path with
  | .ok place => .ok (place, tree.appendAt place .empty)
  | .error fault => .error fault

/-- Puts a link to a path at another one, in place of a file or a link there. A link that
cannot be made is left out. -/
def pointTo (tree : FileTree) (target path : String) : FileTree :=
  let tree := (tree.removeFile path).toOption.getD tree
  (tree.createLink target path).toOption.getD tree

/-- Creates the log file of a time in a directory, and points the link to it. The
directory is created even if the rest fails. -/
def create (tree : FileTree) (directory stamp : String) : Except FileFault LogFile × FileTree :=
  match tree.ensureDirectory directory with
  | (some fault, tree) => (.error fault, tree)
  | (none, tree) =>
    let path := Path.join directory (nameAt stamp)
    match openForAppending tree path with
    | .error fault => (.error fault, tree)
    | .ok (place, tree) => (.ok ⟨path, place⟩, pointTo tree path (latestIn directory))

/-- A further writer to a log file. It shares the open file, so it has no end of its own. -/
def makeWriter (file : LogFile) : LogFile := file

/-- Writes a text at the end of a log file. If the file was removed since it was opened, the tree
has nothing of it. -/
def write (file : LogFile) (tree : FileTree) (text : String) : FileTree :=
  match tree.entry? file.place with
  | some (.file bytes) => tree.put file.place (.file (bytes ++ Text.Utf8.encode text))
  | _ => tree

/-- Writes some texts one after the other. -/
def writeAll (file : LogFile) (tree : FileTree) (texts : List String) : FileTree :=
  texts.foldl file.write tree

end LogFile

end PageManifest
